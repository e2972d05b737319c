import ElfCraft.Ppc.Lemmas.Encode
import ElfCraft.Ps3patch.Lemmas.Loaded
import ElfCraft.Ps3patch.Lemmas.Relocate
import ElfCraft.Ps3patch.Lemmas.Report

/-!
This module contains the way back from a patched executable. Relocations compose, so the displaced words can be
read out of the trampoline, and with them at the window again the program is the original one.
-/

namespace ElfCraft
namespace Ps3patch

open Binary Elf ElfFile Ppc detail

/-
Relocations compose.
-/

/--
The fix up of a branch only looks at the target, wherever the branch is.
-/
theorem relocateBranch_of_keepsTarget {w w' : Instruction} {a b : BitVec 32} (h : KeepsTarget w w' a b)
    (hkind : (classify w).kind = .DirectRelative) (c : BitVec 32)
    : relocateBranch (classify w') b c = relocateBranch (classify w) a c := by
  unfold relocateBranch
  rw [h.target, h.kind, hkind, h.form, h.bo, h.bi, h.link]

section Compose

variable {a b c : BitVec 32}

theorem relocateDisplacedInstructions.go_go {i : Nat} {original relocated : List Instruction}
    (h : go a b i original = .ok relocated)
    : go b c i relocated = go a c i original := by
  induction original generalizing i relocated with
  | nil =>
    rw [go, Except.ok.injEq] at h
    rw [← h]
    rfl
  | cons w rest ih =>
    by_cases hw : Relocatable w (wordAddr a i) (wordAddr b i)
    . rw [go_cons_of_relocatable _ _ _ _ _ hw] at h
      cases hrest : go a b (i + 1) rest with
      | error e =>
        rw [hrest] at h
        contradiction
      | ok relocated' =>
        rw [hrest, Except.map, Except.ok.injEq] at h
        rw [← h]
        simp only [go]
        rw [ih hrest, ← wordAddr, ← wordAddr, ← wordAddr]
        by_cases hkind : (classify w).kind = .DirectRelative
        . have hkeeps := keepsTarget_relocatedWord w _ _ hkind hw
          rw [if_pos hkeeps.kind, if_pos hkind, relocateBranch_of_keepsTarget hkeeps hkind]
        . rw [relocatedWord_of_not_relative w _ _ hkind, if_neg hkind, if_neg hkind]
    . obtain ⟨e, he, -⟩ := go_cons_of_not_relocatable a b i w rest hw
      rw [he] at h
      contradiction

theorem relocateDisplacedInstructions.twice {original relocated : List Instruction}
    (h : relocateDisplacedInstructions original a b = .ok relocated)
    : relocateDisplacedInstructions relocated b c = relocateDisplacedInstructions original a c := by
  apply relocateDisplacedInstructions.go_go h

end Compose

-- Relocate to one address after the other.
def relocateAlong (words : List Instruction) (base : BitVec 32) (newBases : List (BitVec 32))
    : Result (List Instruction) :=
  match newBases with
  | [] => .ok words
  | newBase :: newBases =>
    match relocateDisplacedInstructions words base newBase with
    | .error e => .error e
    | .ok words => relocateAlong words newBase newBases

theorem relocateAlong_cons_eq_ok_iff (words out : List Instruction) (base newBase : BitVec 32)
    (newBases : List (BitVec 32))
    : relocateAlong words base (newBase :: newBases) = .ok out
        ↔
      ∃ relocated, relocateDisplacedInstructions words base newBase = .ok relocated
        ∧ relocateAlong relocated newBase newBases = .ok out := by
  rw [relocateAlong]
  cases relocateDisplacedInstructions words base newBase <;> simp

/--
Where the words have been makes no difference. If they got through `newBases`, then the step to one more address
ends like the direct relocation, with the same words or with the same error.
-/
theorem relocateAlong_snoc (words out : List Instruction) (base newBase : BitVec 32)
    (newBases : List (BitVec 32)) (h : relocateAlong words base newBases = .ok out)
    : relocateAlong words base (newBases ++ [newBase]) = relocateDisplacedInstructions words base newBase := by
  induction newBases generalizing words base with
  | nil =>
    rw [List.nil_append, relocateAlong]
    cases relocateDisplacedInstructions words base newBase <;> rfl
  | cons next newBases ih =>
    have ⟨relocated, hnext, hrest⟩ := (relocateAlong_cons_eq_ok_iff _ _ _ _ _).mp h
    rw [List.cons_append, relocateAlong, hnext]
    dsimp only
    rw [ih relocated next hrest, relocateDisplacedInstructions.twice hnext]

-- `nop` and `b .+0x100`
theorem relocateAlong_snoc_b
    : relocateAlong [0x60000000, 0x48000100] 0x10000 [0x20000, 0x1000000, 0x18000]
        = relocateDisplacedInstructions [0x60000000, 0x48000100] 0x10000 0x18000 := by
  apply relocateAlong_snoc _ [0x60000000, 0x4B010100] _ _ [0x20000, 0x1000000]
  decide +kernel

/-
The way back.
-/

theorem opcode_of_relative (w : Instruction) (h : (classify w).kind = .DirectRelative)
    : w.extractLsb' 26 6 = 18#6 ∨ w.extractLsb' 26 6 = 16#6 := by
  have hop (k : BitVec 6) := setWidth_eq_setWidth_iff (w.extractLsb' 26 6) k (by omega)
  have h18 : (w.extractLsb' 26 6).setWidth 32 = 18#32 ↔ _ := hop 18
  have h16 : (w.extractLsb' 26 6).setWidth 32 = 16#32 ↔ _ := hop 16
  unfold classify at h
  dsimp only at h
  rw [opcode_eq] at h
  split at h
  . next hb => exact .inl (h18.mp hb)
  . split at h
    . next hbc => exact .inr (h16.mp hbc)
    . split at h
      . split at h
        . contradiction
        . split at h <;> contradiction
      . contradiction

/--
A relative branch is the encoding of what it is classified as, and its displacement is one that the field holds.
-/
theorem encoded_displacement (w : Instruction) (h : (classify w).kind = .DirectRelative)
    : Fits (classify w).fieldWidth (classify w).displacement.toInt
        ∧ (classify w).encoded (classify w).displacement = w := by
  have hword : (classify w).reencode = .ok w := by
    cases opcode_of_relative w h with
    | inl hop => apply reencode_of_opcode_18 hop
    | inr hop => apply reencode_of_opcode_16 hop
  unfold DecodedBranch.fieldWidth DecodedBranch.encoded
  unfold DecodedBranch.reencode DecodedBranch.target at hword
  rw [h] at hword
  split
  . next hform =>
    rw [hform] at hword
    have ⟨hfits, heq⟩ := (encodeBranchConditional_eq_ok_iff _ _ _ _ _ _).mp hword
    exact ⟨hfits, heq.symm⟩
  . next hform =>
    rw [eq_false_of_ne_true hform] at hword
    have ⟨hfits, heq⟩ := (encodeBranch_eq_ok_iff _ _ _ _).mp hword
    exact ⟨hfits, heq.symm⟩

theorem relocatedDisp_self (branch : DecodedBranch) (a : BitVec 32)
    : (relocatedDisp branch a a = branch.displacement.toInt ∧ StaysInside branch a)
        ∨
      ((relocatedDisp branch a a + 2 ^ 31 ≤ branch.displacement.toInt
          ∨ branch.displacement.toInt + 2 ^ 31 ≤ relocatedDisp branch a a) ∧ ¬ StaysInside branch a) := by
  have ha := a.isLt
  have hdisp := branch.displacement.isLt
  have hint := BitVec.toInt_eq_toNat_cond branch.displacement
  unfold relocatedDisp StaysInside
  rw [BitVec.toNat_add]
  split at hint <;> omega

theorem relocatable_self_iff (w : Instruction) (a : BitVec 32)
    : Relocatable w a a ↔ ((classify w).kind = .DirectRelative → StaysInside (classify w) a) := by
  apply imp_congr_right
  intro hkind
  have ⟨hfits, _⟩ := encoded_displacement w hkind
  cases relocatedDisp_self (classify w) a with
  | inl h =>
    rw [h.left]
    exact ⟨fun _ => h.right, fun _ => hfits⟩
  | inr h =>
    refine iff_of_false ?_ h.right
    intro hfits'
    have hbound := h.left
    have hwidth : (2 : Int) ^ ((classify w).fieldWidth - 1) ≤ 2 ^ 25 := by
      unfold DecodedBranch.fieldWidth
      split
      . decide
      . decide
    have := hfits.lower
    have := hfits.upper
    have := hfits'.lower
    have := hfits'.upper
    omega

theorem relocatedWord_self {w : Instruction} {a : BitVec 32} (h : Relocatable w a a)
    : relocatedWord w a a = w := by
  unfold relocatedWord
  split
  . next hkind =>
    have ⟨_, hword⟩ := encoded_displacement w hkind
    have hinside := (relocatable_self_iff w a).mp h hkind
    cases relocatedDisp_self (classify w) a with
    | inl h => rw [h.left, BitVec.ofInt_toInt, hword]
    | inr h => exact absurd hinside h.right
  . rfl

/--
None of the targets wraps around.
-/
def AllInside (words : List Instruction) (base : BitVec 32) : Prop :=
  ∀ i w, words[i]? = some w → (classify w).kind = .DirectRelative →
    StaysInside (classify w) (wordAddr base i)

theorem relocateDisplacedInstructions_self_iff (words : List Instruction) (base : BitVec 32)
    : relocateDisplacedInstructions words base base = .ok words ↔ AllInside words base := by
  rw [relocateDisplacedInstructions_eq_ok_iff]
  simp only [relocatable_self_iff]
  constructor
  . intro h
    apply h.left
  . intro h
    refine ⟨h, ?_⟩
    apply List.ext_getElem?
    intro i
    rw [List.getElem?_mapIdx]
    cases hw : words[i]? with
    | none => rfl
    | some w =>
      rw [Option.map_some, relocatedWord_self]
      rw [relocatable_self_iff]
      apply h i w hw

/--
What comes back is either the original or an error, it is never something else.
-/
theorem eq_of_relocateDisplacedInstructions_self {words back : List Instruction} {base : BitVec 32}
    (h : relocateDisplacedInstructions words base base = .ok back)
    : back = words := by
  have hall := (relocateDisplacedInstructions_eq_ok_iff _ _ _ _).mp h
  have hself := (relocateDisplacedInstructions_self_iff words base).mpr (by
    intro i w hw
    apply (relocatable_self_iff _ _).mp (hall.left i w hw))
  rw [hself, Except.ok.injEq] at h
  exact h.symm

theorem toOption_eq_some_iff {ε α : Type} (x : Except ε α) (a : α) : x.toOption = some a ↔ x = .ok a := by
  cases x <;> simp [Except.toOption]

/--
The words behind the code that every trampoline has, in the one of the segment `ph`.
-/
def keptWords (file : Ps3ElfFile) (ph : Phdr true .Big) (n : Nat) : List Instruction :=
  readInstructions (slice file.raw.toList (ph.p_offset.toNat + 8 + 49 * 4) (n * 4)) n

/--
The way back from nothing but the output: relocate what the trampoline keeps to the entry point and write it
there. The program has no such operation.
-/
def unpatch (file : Ps3ElfFile) : Option Ps3ElfFile := do
  let entry ← (resolveEntryDescriptor file).toOption
  let ph ← file.segments.getLast?
  let T : BitVec 32 := ph.p_vaddr.setWidth 32
  let kept := keptWords file ph (displaced entry T)
  let back ← (relocateDisplacedInstructions kept (resumeBase T) (entryAddr entry)).toOption
  let offset ← (file.vaddrToFileOffset entry.codeAddress).toOption
  (file.patchBytesAt offset (toBigEndianBytes back)).toOption

-- The words at the entry point that the patch overwrites.
def windowWords (run : Run) : List Instruction :=
  readInstructions (slice run.file.raw.toList run.entryOffset.toNat run.tramp.entryPatchBytes.length)
    run.tramp.displacedInstructionCount

namespace Patched

variable {bytes : Bytes} {path : List Byte} {run : Run} (p : Patched bytes path run)
include p

theorem keptWords_reparsed {offset : BitVec 64} {originals resumed : List Instruction}
    (b : Built run.file run.entry run.trampolineAddr path run.tramp offset originals resumed)
    : keptWords (reparsed run) (run.file.nextPhdr (trampolineLoad run))
          (displaced run.entry run.trampolineAddr)
        =
      resumed := by
  have ⟨hle, hslice⟩ := b.slice_blob_resumed
  have hfile : run.file.raw = bytes := by
    rw [p.file]
    rfl
  unfold keptWords
  rw [toNat_p_offset_nextPhdr, hfile, Nat.add_assoc, ← b.length_resumed]
  show readInstructions (slice run.outBytes.toList _ _) _ = _
  rw [p.slice_outBytes_blob _ _ hle, hslice]
  have hread := readInstructions_toBigEndianBytes resumed []
  rw [List.append_nil] at hread
  exact hread

theorem getLast?_segments
    : (reparsed run).segments.getLast? = some (run.file.nextPhdr (trampolineLoad run)) := by
  show run.patched.segments.getLast? = _
  rw [p.segments, List.getLast?_append, List.getLast?_singleton]
  rfl

/--
What the trampoline keeps is relocated twice, to the trampoline and back.
-/
theorem unpatch_reparsed (hclear : DescriptorClear run.file run.entry run.trampolineAddr)
    : unpatch (reparsed run)
        =
      (relocateDisplacedInstructions (windowWords run) (entryAddr run.entry)
          (entryAddr run.entry)).toOption.bind fun back =>
        ((reparsed run).patchBytesAt run.entryOffset (toBigEndianBytes back)).toOption := by
  have ⟨offset, originals, resumed, b⟩ := built_of_buildTrampoline _ _ _ _ _ p.built
  have hoffset : offset = run.entryOffset := by
    have hlookup := b.offset
    rw [p.lookup, Except.ok.injEq] at hlookup
    exact hlookup.symm
  have hwindow : windowWords run = originals := by
    rw [b.originals_eq, hoffset]
    unfold windowWords
    rw [b.length_entryPatchBytes, b.count_eq]
  have haddr : (run.file.nextPhdr (trampolineLoad run)).p_vaddr.setWidth 32 = run.trampolineAddr := by
    unfold nextPhdr
    rw [Phdr.p_vaddr_load _ _ _ _ _ (by exact BitVec.isLt _)]
    show (run.trampolineAddr.setWidth 64).setWidth 32 = _
    rw [BitVec.setWidth_setWidth_of_le _ (by omega), BitVec.setWidth_eq]
  unfold unpatch
  rw [p.resolveEntryDescriptor_of_clear hclear, p.getLast?_segments]
  show ((relocateDisplacedInstructions (keptWords _ _ (displaced _ (BitVec.setWidth 32 _)))
    (resumeBase (BitVec.setWidth 32 _)) (entryAddr run.entry)).toOption.bind fun back =>
      ((reparsed run).vaddrToFileOffset run.entry.codeAddress).toOption.bind _) = _
  rw [haddr, p.keptWords_reparsed b, relocateDisplacedInstructions.twice b.relocated, hwindow,
    p.vaddrToFileOffset_reparsed _ _ p.lookup]
  rfl

theorem toBigEndianBytes_windowWords
    : toBigEndianBytes (windowWords run)
        =
      slice bytes.toList run.entryOffset.toNat run.tramp.entryPatchBytes.length := by
  have ⟨offset, originals, resumed, b⟩ := built_of_buildTrampoline _ _ _ _ _ p.built
  have hlen := length_slice bytes.toList _ _ p.window
  have hfile : run.file.raw = bytes := by
    rw [p.file]
    rfl
  unfold windowWords
  rw [toBigEndianBytes_eq, readInstructions_eq, hfile]
  apply Codec.encodeAll_decodeAll
  rw [hlen, b.length_entryPatchBytes, b.count_eq]
  rfl

theorem length_windowWords
    : (toBigEndianBytes (windowWords run)).length = run.tramp.entryPatchBytes.length := by
  rw [p.toBigEndianBytes_windowWords]
  apply length_slice _ _ _ p.window

/--
The way back writes the original words, or there is none.
-/
theorem unpatch_eq_some_iff (hclear : DescriptorClear run.file run.entry run.trampolineAddr)
    (restored : Ps3ElfFile)
    : unpatch (reparsed run) = some restored
        ↔
      AllInside (windowWords run) (entryAddr run.entry)
        ∧ ∃ raw, run.outBytes.write run.entryOffset.toNat (toBigEndianBytes (windowWords run)) = some raw
          ∧ restored = { reparsed run with raw } := by
  rw [p.unpatch_reparsed hclear, Option.bind_eq_some_iff]
  constructor
  . intro ⟨back, hback, hwrite⟩
    rw [toOption_eq_some_iff] at hback hwrite
    have heq := eq_of_relocateDisplacedInstructions_self hback
    rw [heq] at hback hwrite
    refine ⟨(relocateDisplacedInstructions_self_iff _ _).mp hback, ?_⟩
    apply (patchBytesAt_eq_ok_iff _ _ _ _).mp hwrite
  . intro ⟨hinside, hwrite⟩
    refine ⟨windowWords run, ?_, ?_⟩
    . rw [toOption_eq_some_iff]
      apply (relocateDisplacedInstructions_self_iff _ _).mpr hinside
    . rw [toOption_eq_some_iff]
      apply (patchBytesAt_eq_ok_iff _ _ _ _).mpr hwrite

theorem isSome_unpatch_iff (hclear : DescriptorClear run.file run.entry run.trampolineAddr)
    : (unpatch (reparsed run)).isSome = true ↔ AllInside (windowWords run) (entryAddr run.entry) := by
  rw [Option.isSome_iff_exists]
  simp only [p.unpatch_eq_some_iff hclear]
  constructor
  . intro ⟨restored, hinside, _⟩
    exact hinside
  . intro hinside
    have hwindow := p.window
    have hsize := p.size_outBytes
    have ⟨raw, hwrite⟩ := run.outBytes.exists_write run.entryOffset.toNat
      (toBigEndianBytes (windowWords run)) (by rw [p.length_windowWords]; omega)
    exact ⟨_, hinside, raw, hwrite, rfl⟩

/--
Up to the two header fields the restored file has every byte of the input.
-/
theorem getElem?_restored {restored : Ps3ElfFile}
    (hclear : DescriptorClear run.file run.entry run.trampolineAddr)
    (h : unpatch (reparsed run) = some restored) {i : Nat} (hi : i < bytes.size) (hfields : ¬ InFields i)
    : restored.raw.toList[i]? = bytes.toList[i]? := by
  have ⟨_, raw, hwrite, hrestored⟩ := (p.unpatch_eq_some_iff hclear restored).mp h
  have ⟨hfits, hraw⟩ := (Bytes.write_eq_some_iff _ _ _ _).mp hwrite
  have hlen := p.length_windowWords
  unfold Bytes.size at hfits
  rw [hrestored]
  show raw.toList[i]? = _
  rw [hraw, getElem?_splice _ _ _ _ (by omega), hlen]
  unfold InFields at hfields
  split
  . next hin =>
    rw [p.toBigEndianBytes_windowWords, getElem?_slice, if_pos (by omega), Nat.add_sub_cancel' hin.left]
  . next hout =>
    apply p.getElem?_outBytes i hi (by omega) (by omega) (by omega)

theorem byteAt_restored {restored : Ps3ElfFile}
    (hclear : DescriptorClear run.file run.entry run.trampolineAddr)
    (h : unpatch (reparsed run) = some restored) {vaddr offset : BitVec 64} {x : Byte}
    (hlookup : run.file.vaddrToFileOffset vaddr = .ok offset) (hfields : ¬ InFields offset.toNat)
    (hx : run.file.byteAt vaddr = some x)
    : restored.byteAt vaddr = some x := by
  have ⟨_, raw, hwrite, hrestored⟩ := (p.unpatch_eq_some_iff hclear restored).mp h
  have ⟨hfits, hraw⟩ := (Bytes.write_eq_some_iff _ _ _ _).mp hwrite
  have hfile : run.file.raw = bytes := by
    rw [p.file]
    rfl
  have hsegments : restored.segments = run.file.segments ++ [run.file.nextPhdr (trampolineLoad run)] := by
    rw [hrestored]
    exact p.segments
  have hsize : run.file.raw.size ≤ restored.raw.size := by
    have hout := p.size_outBytes
    have hlen := length_splice run.outBytes.toList _ _ hfits
    rw [← hraw] at hlen
    rw [hfile, hrestored]
    show bytes.toList.length ≤ raw.toList.length
    unfold Bytes.size at hout
    omega
  have hlookup' := vaddrToFileOffset_append run.file restored _ _ _ hsegments hsize hlookup
  unfold byteAt at hx ⊢
  rw [hlookup] at hx
  rw [hlookup']
  dsimp only at hx ⊢
  rw [hfile] at hx
  have hi : offset.toNat < bytes.size := (List.getElem?_eq_some_iff.mp hx).choose
  rw [p.getElem?_restored hclear h hi hfields, hx]

end Patched

/--
The output knows the program that it was made of: the displaced words come back out of the trampoline, unless one
of them is a branch whose target wraps around, and with them every address of the input reads what it did.
-/
theorem patch_unpatch (inputPath : String) (bytes : Bytes) (path : List Byte) (run : Run)
    (h : patch inputPath bytes path = .ok run) (htame : Tame bytes)
    (hclear : DescriptorClear run.file run.entry run.trampolineAddr)
    : ∃ file, parseAny run.outBytes = .ok (.be64 file)
        ∧ ((unpatch file).isSome = true ↔ AllInside (windowWords run) (entryAddr run.entry))
        ∧ ∀ restored, unpatch file = some restored →
            ∀ vaddr offset x, run.file.vaddrToFileOffset vaddr = .ok offset → ¬ InFields offset.toNat →
              run.file.byteAt vaddr = some x → restored.byteAt vaddr = some x := by
  have p := patched_of_patch inputPath bytes path run h
  have ⟨hsections, hcount⟩ := p.tame htame
  refine ⟨_, p.parseAny_outBytes hsections hcount, p.isSome_unpatch_iff hclear, ?_⟩
  intro restored hrestored vaddr offset x hlookup hfields hx
  apply p.byteAt_restored hclear hrestored hlookup hfields hx

theorem windowWords_plainSample {path : List Byte} {run : Run} (p : Patched plainSample path run)
    : windowWords run = [0x60000000] := by
  have ⟨hfile, hentry, haddr⟩ := p.plainSample_eq
  have ⟨offset, originals, resumed, b⟩ := built_of_buildTrampoline _ _ _ _ _ p.built
  have hcount : displaced ⟨0x10080, 0x30000, 0⟩ 0x20000 = 1 := by
    decide +kernel
  have hlookup : (fileOf true .Big plainSample).vaddrToFileOffset 0x10080 = .ok 0x80 := by
    decide +kernel
  have hoffset := p.lookup
  rw [hfile, hentry, hlookup, Except.ok.injEq] at hoffset
  unfold windowWords
  rw [b.length_entryPatchBytes, b.count_eq, ← hoffset, hfile, hentry, haddr, hcount]
  decide +kernel

theorem patch_unpatch_plainSample
    : ∃ run file restored, patch "EBOOT.elf" plainSample [0x61] = .ok run
        ∧ parseAny run.outBytes = .ok (.be64 file) ∧ unpatch file = some restored
        ∧ ∀ vaddr offset x, run.file.vaddrToFileOffset vaddr = .ok offset → ¬ InFields offset.toNat →
            run.file.byteAt vaddr = some x → restored.byteAt vaddr = some x := by
  have ⟨run, hrun⟩ := exists_ok_of_isOk isOk_patch_plainSample
  have p := patched_of_patch _ _ _ _ hrun
  have hinside : AllInside (windowWords run) (entryAddr run.entry) := by
    rw [windowWords_plainSample p]
    intro i w hw hkind
    have hw := List.mem_of_getElem? hw
    rw [List.mem_singleton] at hw
    rw [hw] at hkind
    exact absurd hkind (by decide)
  have ⟨file, hfile, hsome, hrestored⟩ := patch_unpatch _ _ _ _ hrun tame_plainSample
    (descriptorClear_plainSample p)
  have ⟨restored, hunpatch⟩ := Option.isSome_iff_exists.mp (hsome.mpr hinside)
  exact ⟨run, file, restored, hrun, hfile, hunpatch, hrestored restored hunpatch⟩

end Ps3patch
end ElfCraft
