import ElfCraft.Ps3patch.Lemmas.Address
import ElfCraft.Ps3patch.Lemmas.Reparse

/-!
This module contains the way from the entry point into the injected code and back, as its
addresses are translated in the output of a successful run.
-/

namespace ElfCraft
namespace Ps3patch

open Binary Elf ElfFile Ppc detail

/--
In `file` the entry point still is the one of the input, its window is the jump into the trampoline and
`words` are where the addresses in the trampoline say.
-/
structure ChainFound (run : Run) (words : List Instruction) (file : Ps3ElfFile) : Prop where
  entry : ∃ entry, resolveEntryDescriptor file = .ok entry
    ∧ entry.codeAddress = run.entry.codeAddress ∧ entry.tocValue = run.entry.tocValue
  window : ∃ offset, file.vaddrToFileOffset run.entry.codeAddress = .ok offset
    ∧ file.readAt offset (BitVec.ofNat 64 (4 * run.tramp.displacedInstructionCount))
        = .ok run.tramp.entryPatchBytes
  code : ∀ k w, words[k]? = some w →
    ∃ offset, file.vaddrToFileOffset (run.trampolineAddr.setWidth 64 + BitVec.ofNat 64 (8 + 4 * k))
        = .ok offset
      ∧ file.readAt offset (BitVec.ofNat 64 4) = .ok (toBigEndianBytes [w])

/--
What the tool writes at the window and into the header stays apart from the descriptor.
-/
def DescriptorClear (file : Ps3ElfFile) (entry : EntryDescriptor) (T : BitVec 32) : Prop :=
  ∀ offset, file.vaddrToFileOffset file.entry = .ok offset →
    Apart offset.toNat 8 32 8 ∧ Apart offset.toNat 8 56 2
      ∧ ∀ offset', file.vaddrToFileOffset entry.codeAddress = .ok offset' →
          Apart offset.toNat 8 offset'.toNat (4 * displaced entry T)

/--
The window stays apart from the header and from the section header table, which `serialize` writes again.
-/
def WindowClear (file : Ps3ElfFile) (entry : EntryDescriptor) (T : BitVec 32) : Prop :=
  ∀ offset, file.vaddrToFileOffset entry.codeAddress = .ok offset →
    64 ≤ offset.toNat
      ∧ Apart offset.toNat (4 * displaced entry T) file.header.e_shoff.toNat
          (file.header.e_shnum.toNat * 64)

/--
What the tool writes at the window and into the header stays apart from what the chain needs, and no
segment of the input covers the code of the trampoline at `T`.
-/
structure ChainClear (file : Ps3ElfFile) (entry : EntryDescriptor) (T : BitVec 32) : Prop where
  sections : file.SectionsClear
  window : WindowClear file entry T
  descriptor : DescriptorClear file entry T
  code : ∀ k < 49 + displaced entry T + (jumpBack entry T).length, ∀ ph ∈ file.segments,
    Phdr.covers (T.setWidth 64 + BitVec.ofNat 64 (8 + 4 * k)) ph = false

namespace Patched

variable {bytes : Bytes} {path : List Byte} {run : Run} (p : Patched bytes path run)
include p

-- The file that the parser reads from the output.
def reparsed (run : Run) : Ps3ElfFile := { run.patched with raw := run.outBytes }

theorem vaddrToFileOffset_reparsed (vaddr offset : BitVec 64)
    (h : run.file.vaddrToFileOffset vaddr = .ok offset)
    : (reparsed run).vaddrToFileOffset vaddr = .ok offset := by
  have hout := p.size_outBytes
  apply vaddrToFileOffset_append run.file (reparsed run) _ _ _ p.segments _ h
  show _ ≤ run.outBytes.size
  rw [p.file]
  show bytes.size ≤ _
  omega

theorem length_entryPatchBytes
    : run.tramp.entryPatchBytes.length = 4 * displaced run.entry run.trampolineAddr := by
  obtain ⟨offset, originals, resumed, b⟩ := built_of_buildTrampoline _ _ _ _ _ p.built
  rw [b.length_entryPatchBytes, Nat.mul_comm]

theorem resolveEntryDescriptor_of_clear
    (hclear : DescriptorClear run.file run.entry run.trampolineAddr)
    : resolveEntryDescriptor (reparsed run) = .ok run.entry := by
  have hentry := p.entry
  have hlen := p.length_entryPatchBytes
  have hout := p.size_outBytes
  rw [resolveEntryDescriptor_eq_ok_iff] at *
  obtain ⟨hmachine, offset, hlookup, hfits, hdescriptor⟩ := hentry
  obtain ⟨hphoff, hphnum, hwindow⟩ := hclear offset hlookup
  replace hwindow := hwindow _ p.lookup
  replace hfits : offset.toNat + 8 ≤ bytes.size := by
    rw [p.file] at hfits
    exact hfits
  have hslice : slice run.outBytes.toList offset.toNat 8 = slice run.file.raw.toList offset.toNat 8 := by
    rw [p.file]
    apply slice_congr
    intro i h1 h2
    unfold Apart at *
    apply p.getElem?_outBytes i <;> omega
  refine ⟨?_, offset, ?_, ?_, ?_⟩
  . show run.patched.header.e_machine = _
    rw [p.header, Ehdr.e_machine_withTable]
    exact hmachine
  . apply p.vaddrToFileOffset_reparsed
    rw [← hlookup]
    show run.file.vaddrToFileOffset run.patched.header.e_entry = _
    rw [p.header, Ehdr.e_entry_withTable]
    rfl
  . show _ ≤ run.outBytes.size
    omega
  . rw [hdescriptor, ← hslice]
    rfl

theorem resolveEntryDescriptor_reparsed
    (hclear : ChainClear run.file run.entry run.trampolineAddr)
    : resolveEntryDescriptor (reparsed run) = .ok run.entry := by
  apply p.resolveEntryDescriptor_of_clear hclear.descriptor

theorem slice_outBytes_of_clear (hclear : WindowClear run.file run.entry run.trampolineAddr)
    : slice run.outBytes.toList run.entryOffset.toNat run.tramp.entryPatchBytes.length
        =
      run.tramp.entryPatchBytes := by
  have m := p.mutated
  have hlen := p.length_entryPatchBytes
  have hraw := p.size_raw
  have hfits := p.window
  have hshoff : run.patched.header.e_shoff = run.file.header.e_shoff := by
    rw [p.header, Ehdr.e_shoff_withTable]
  have hshnum : run.patched.header.e_shnum = run.file.header.e_shnum := by
    rw [p.header, Ehdr.e_shnum_withTable]
  obtain ⟨hheader, hsections⟩ := hclear _ p.lookup
  have hsize : (Shdr.codec true .Big).size = 64 := by
    rfl
  have hsize' : (Ehdr.codec true .Big).size = 64 := by
    rfl
  have hkept : slice run.outBytes.toList run.entryOffset.toNat run.tramp.entryPatchBytes.length
      = slice run.patched.raw.toList run.entryOffset.toNat run.tramp.entryPatchBytes.length := by
    apply slice_congr
    intro i h1 h2
    rw [p.toList_outBytes, m.getElem?_not_sections i, m.getElem?_withPhdrs_of_lt i (by omega)]
    . rw [getElem?_withHeader_of_ge _ i (by omega)]
    . unfold Apart at hsections
      rw [hshoff, hshnum, hsize]
      omega
  rw [hkept, p.raw, slice_splice_self]
  rw [List.length_append]
  unfold Bytes.size at hfits
  omega

theorem slice_outBytes_window (hclear : ChainClear run.file run.entry run.trampolineAddr)
    : slice run.outBytes.toList run.entryOffset.toNat run.tramp.entryPatchBytes.length
        =
      run.tramp.entryPatchBytes := by
  apply p.slice_outBytes_of_clear hclear.window

theorem toNat_codeAddr (k : Nat) (h : 8 + 4 * k < run.tramp.blob.length)
    : (run.trampolineAddr.setWidth 64 + BitVec.ofNat 64 (8 + 4 * k)).toNat
        =
      run.trampolineAddr.toNat + (8 + 4 * k) := by
  have hT := run.trampolineAddr.isLt
  have hraw := p.size_raw
  have hlt := run.patched.raw.size_lt
  rw [BitVec.toNat_add, BitVec.toNat_setWidth, BitVec.toNat_ofNat]
  omega

/--
The code lies in the new segment, which is looked at after all the old ones.
-/
theorem vaddrToFileOffset_code (k : Nat) (h : 8 + 4 * k < run.tramp.blob.length)
    (hnot : ∀ ph ∈ run.file.segments,
      Phdr.covers (run.trampolineAddr.setWidth 64 + BitVec.ofNat 64 (8 + 4 * k)) ph = false)
    : ∃ offset, (reparsed run).vaddrToFileOffset
        (run.trampolineAddr.setWidth 64 + BitVec.ofNat 64 (8 + 4 * k)) = .ok offset
      ∧ offset.toNat = bytes.size + (8 + 4 * k) := by
  have hT := run.trampolineAddr.isLt
  have hraw := p.size_raw
  have hlt := run.patched.raw.size_lt
  have hout := p.size_outBytes
  have haddr := p.toNat_codeAddr k h
  have hoffset := p.p_offset_new
  have hfilesz := p.p_filesz_new
  have hvaddr : (run.file.nextPhdr (trampolineLoad run)).p_vaddr.toNat = run.trampolineAddr.toNat := by
    unfold nextPhdr
    rw [Phdr.p_vaddr_load _ _ _ _ _ (by exact BitVec.isLt _)]
    show (run.trampolineAddr.setWidth 64).toNat = _
    rw [BitVec.toNat_setWidth]
    omega
  have hfound : (found (run.file.nextPhdr (trampolineLoad run))
      (run.trampolineAddr.setWidth 64 + BitVec.ofNat 64 (8 + 4 * k))).toNat
        = bytes.size + (8 + 4 * k) := by
    unfold found
    rw [BitVec.toNat_add, BitVec.toNat_sub, haddr, hoffset, hvaddr]
    omega
  refine ⟨_, ?_, hfound⟩
  apply vaddrToFileOffset_of_not_covered (reparsed run) run.file.segments _ _ _ p.segments hnot _ rfl
  . rw [hfound]
    show _ ≤ run.outBytes.size
    omega
  . unfold Phdr.covers
    rw [decide_eq_true_eq, BitVec.le_def, BitVec.lt_def, haddr, BitVec.toNat_add, hvaddr, hfilesz]
    refine ⟨?_, ?_, ?_⟩
    . apply Phdr.p_type_load
    . omega
    . omega

/--
The chain of a successful run is found in its output, as long as the output can be parsed and nothing
that the tool writes or looks up first is in the way.
-/
theorem chainFound (hclear : ChainClear run.file run.entry run.trampolineAddr) {m : Nat}
    {words : List Instruction} (hlayout : BlobLayout run.file run.entry run.trampolineAddr path run.tramp
      run.tramp.displacedInstructionCount m words)
    (hwords : words.length = 49 + displaced run.entry run.trampolineAddr
      + (jumpBack run.entry run.trampolineAddr).length)
    : ChainFound run words (reparsed run) := by
  have hout := p.size_outBytes
  have hfits := p.window
  have hlen := hlayout.entryPatch_length
  have hcount := hlayout.displaced_count
  obtain ⟨pad, -, hblob⟩ := hlayout.blob_eq
  constructor
  . exact ⟨run.entry, p.resolveEntryDescriptor_reparsed hclear, rfl, rfl⟩
  . refine ⟨run.entryOffset, p.vaddrToFileOffset_reparsed _ _ p.lookup, ?_⟩
    rw [readAt_eq_ok_iff _ _ _ _ (by omega), ← hlen]
    constructor
    . show _ ≤ run.outBytes.size
      omega
    . exact (p.slice_outBytes_window hclear).symm
  . intro k w hk
    have hlt : k < words.length := (List.getElem?_eq_some_iff.mp hk).choose
    have hword : slice run.tramp.blob (8 + 4 * k) 4 = toBigEndianBytes [w] := by
      rw [hblob, List.append_assoc, List.append_assoc]
      apply slice_toBigEndianBytes TRAMPOLINE_MAGIC _ words k w hk
    have hin : 8 + 4 * k + 4 ≤ run.tramp.blob.length := by
      rw [hblob]
      simp only [List.length_append, length_toBigEndianBytes]
      show _ ≤ 8 + _ + _ + _ + _
      omega
    obtain ⟨offset, hlookup, hoffset⟩ := p.vaddrToFileOffset_code k (by omega)
      (hclear.code k (by omega))
    refine ⟨offset, hlookup, ?_⟩
    rw [readAt_eq_ok_iff _ _ _ _ (by omega), hoffset]
    constructor
    . show _ ≤ run.outBytes.size
      omega
    . rw [← hword, ← p.slice_outBytes_blob _ _ hin]
      rfl

end Patched

/--
Under `ChainClear` the chain is found in the output exactly when its program headers can be counted in
16 bits.
-/
theorem patch_chain_iff (inputPath : String) (bytes : Bytes) (path : List Byte) (run : Run)
    (h : patch inputPath bytes path = .ok run)
    (hclear : ChainClear run.file run.entry run.trampolineAddr)
    : ∃ m words, BlobLayout run.file run.entry run.trampolineAddr path run.tramp
          run.tramp.displacedInstructionCount m words
        ∧ ((∃ file, parseAny run.outBytes = .ok (.be64 file) ∧ ChainFound run words file)
            ↔
          (headerOf true .Big bytes).e_phnum.toNat < 65535) := by
  have p := patched_of_patch inputPath bytes path run h
  have hlt := (headerOf true .Big bytes).e_phnum.isLt
  obtain ⟨offset, originals, resumed, b⟩ := built_of_buildTrampoline _ _ _ _ _ p.built
  have hlayout := b.blobLayout
  have hwords := hlayout.words_length
  have hdisplaced := hlayout.displaced
  rw [hdisplaced] at hlayout
  refine ⟨_, _, hlayout, ?_⟩
  constructor
  . rintro ⟨file, hparse, hfound⟩
    apply Decidable.by_contra
    intro hge
    have hnil := p.segments_of_wrapped hclear.sections (by omega) file hparse
    obtain ⟨offset, hlookup, -⟩ := hfound.window
    rw [vaddrToFileOffset_eq_ok_iff, hnil] at hlookup
    simp at hlookup
  . intro hcount
    exact ⟨_, p.parseAny_outBytes hclear.sections hcount, p.chainFound hclear hlayout hwords⟩

theorem chainClear_plainSample
    : ChainClear (fileOf true .Big plainSample) ⟨0x10080, 0x30000, 0⟩ 0x20000 := by
  have hwindow : (fileOf true .Big plainSample).vaddrToFileOffset 0x10080 = .ok 0x80 := by
    decide +kernel
  have hdescriptor : (fileOf true .Big plainSample).vaddrToFileOffset
      (fileOf true .Big plainSample).entry = .ok 0x78 := by
    decide +kernel
  constructor
  . left
    decide +kernel
  . intro offset hoffset
    rw [hwindow, Except.ok.injEq] at hoffset
    rw [← hoffset]
    decide +kernel
  . intro offset hoffset
    rw [hdescriptor, Except.ok.injEq] at hoffset
    rw [← hoffset, hwindow]
    simp only [Except.ok.injEq, forall_eq']
    decide +kernel
  . decide +kernel

theorem patch_chain_plainSample
    : ∃ run m words, patch "EBOOT.elf" plainSample [0x61] = .ok run
        ∧ BlobLayout run.file run.entry run.trampolineAddr [0x61] run.tramp
          run.tramp.displacedInstructionCount m words
        ∧ ((∃ file, parseAny run.outBytes = .ok (.be64 file) ∧ ChainFound run words file)
            ↔
          (headerOf true .Big plainSample).e_phnum.toNat < 65535) := by
  obtain ⟨run, hrun⟩ := exists_ok_of_isOk isOk_patch_plainSample
  have p := patched_of_patch _ _ _ _ hrun
  have hentry : resolveEntryDescriptor (fileOf true .Big plainSample) = .ok ⟨0x10080, 0x30000, 0⟩ := by
    decide +kernel
  have haddr : pickTrampolineAddr (fileOf true .Big plainSample) = 0x20000 := by
    decide +kernel
  have hclear : ChainClear run.file run.entry run.trampolineAddr := by
    have hresolved := p.entry
    rw [p.addr, p.file, haddr]
    rw [p.file, hentry, Except.ok.injEq] at hresolved
    rw [← hresolved]
    exact chainClear_plainSample
  obtain ⟨m, words, hlayout, hiff⟩ := patch_chain_iff _ _ _ _ hrun hclear
  exact ⟨run, m, words, hrun, hlayout, hiff⟩

/--
The addresses in the trampoline belong to the first segment, whose own bytes are found there.
-/
theorem patch_chain_wrappedSample
    : ∃ run, patch "EBOOT.elf" wrappedSample [0x61] = .ok run
        ∧ ¬ ∃ m words file, BlobLayout run.file run.entry run.trampolineAddr [0x61] run.tramp
            run.tramp.displacedInstructionCount m words
          ∧ parseAny run.outBytes = .ok (.be64 file) ∧ ChainFound run words file := by
  have hok : (patch "EBOOT.elf" wrappedSample [0x61]).isOk = true := by
    decide +kernel
  have hfirst : ((patch "EBOOT.elf" wrappedSample [0x61]).toOption.map fun run =>
      (ps3ElfFileOf run.outBytes).map fun file =>
        (file.vaddrToFileOffset (run.trampolineAddr.setWidth 64 + BitVec.ofNat 64 8)).toOption.map fun offset =>
          decide (file.readAt offset (BitVec.ofNat 64 4) = .ok (slice run.tramp.blob 8 4)))
        = some (some (some false)) := by
    decide +kernel
  obtain ⟨run, hrun⟩ := exists_ok_of_isOk hok
  rw [hrun, Except.toOption, Option.map_some, Option.some.injEq] at hfirst
  refine ⟨run, hrun, ?_⟩
  rintro ⟨m, words, file, hlayout, hparse, hfound⟩
  obtain ⟨pad, -, hblob⟩ := hlayout.blob_eq
  have hlen := hlayout.words_length
  have hword : words[0]? = some words[0] := List.getElem?_eq_getElem (by omega)
  obtain ⟨offset, hlookup, hread⟩ := hfound.code 0 _ hword
  have hslice : slice run.tramp.blob 8 4 = toBigEndianBytes [words[0]] := by
    rw [hblob, List.append_assoc, List.append_assoc]
    apply slice_toBigEndianBytes TRAMPOLINE_MAGIC _ words 0 _ hword
  simp only [ps3ElfFileOf_of_parseAny hparse, hlookup, hread, hslice, Except.toOption, Option.map_some,
    decide_true, Option.some.injEq] at hfirst
  exact Bool.false_ne_true hfirst.symm

end Ps3patch
end ElfCraft
