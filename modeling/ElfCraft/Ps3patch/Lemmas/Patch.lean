import ElfCraft.Elf.Lemmas.Lookup
import ElfCraft.Elf.Lemmas.PatchBytes
import ElfCraft.Ps3patch.Main
import ElfCraft.Ps3patch.Lemmas.Trampoline

/-!
This module contains what a successful run of the patch mode has done: the segment that it appended, the
window at the entry point that it overwrote and, byte by byte, the file that it wrote.
-/

namespace ElfCraft
namespace Ps3patch

open Binary Elf ElfFile Ppc detail

def descriptorOf (bytes : List Byte) : EntryDescriptor where
  codeAddress := (readBigEndian32 bytes 0).setWidth 64
  tocValue := (readBigEndian32 bytes 4).setWidth 64
  envPointer := 0

theorem resolveEntryDescriptor_eq_ok_iff (file : Ps3ElfFile) (entry : EntryDescriptor)
    : resolveEntryDescriptor file = .ok entry
        ↔
      file.header.e_machine = EM_PPC64
        ∧ ∃ offset, file.vaddrToFileOffset file.entry = .ok offset
          ∧ offset.toNat + 8 ≤ file.raw.size
          ∧ entry = descriptorOf (slice file.raw.toList offset.toNat 8) := by
  unfold resolveEntryDescriptor validatePs3Executable
  by_cases hmachine : file.header.e_machine = EM_PPC64
  . rw [if_neg (by simp [hmachine])]
    simp only [hmachine, true_and]
    cases hlookup : file.vaddrToFileOffset file.entry with
    | error e => simp
    | ok offset =>
      simp only [Except.ok.injEq, exists_eq_left']
      cases hread : file.readAt offset 8 with
      | error e =>
        have hfits : ¬ offset.toNat + 8 ≤ file.raw.size := by
          intro hfits
          have hok := (readAt_eq_ok_iff file offset 8 _ (by omega)).mpr ⟨hfits, rfl⟩
          replace hok := hok.symm.trans hread
          contradiction
        simp [hfits]
      | ok bytes =>
        obtain ⟨hfits, hbytes⟩ := (readAt_eq_ok_iff file offset 8 bytes (by omega)).mp hread
        simp only [Except.ok.injEq, hfits, true_and]
        rw [eq_comm, hbytes]
        rfl
  . rw [if_pos hmachine]
    simp [hmachine]

theorem codeAddress_lt {file : Ps3ElfFile} {entry : EntryDescriptor}
    (h : resolveEntryDescriptor file = .ok entry)
    : entry.codeAddress.toNat < 2 ^ 32 := by
  rw [resolveEntryDescriptor_eq_ok_iff] at h
  obtain ⟨-, offset, -, -, hentry⟩ := h
  rw [hentry]
  show ((readBigEndian32 _ 0).setWidth 64).toNat < _
  rw [BitVec.toNat_setWidth]
  have := (readBigEndian32 (slice file.raw.toList offset.toNat 8) 0).isLt
  omega

theorem setWidth_entryAddr {file : Ps3ElfFile} {entry : EntryDescriptor}
    (h : resolveEntryDescriptor file = .ok entry)
    : (entryAddr entry).setWidth 64 = entry.codeAddress := by
  apply setWidth_setWidth_of_lt false entry.codeAddress (codeAddress_lt h) rfl

theorem be64_of_eq {is64 : Bool} {E : Endian} (bytes : Bytes) (file : Ps3ElfFile)
    (hwf : WellFormed is64 E bytes) (h : AnyElfFile.be64 file = .of (fileOf is64 E bytes))
    : WellFormed true .Big bytes ∧ file = fileOf true .Big bytes := by
  cases is64 with
  | false => cases E <;> cases h
  | true =>
    cases E with
    | Little => cases h
    | Big =>
      cases h
      exact ⟨hwf, rfl⟩

/-
The steps behind the segment that gets appended.
-/

section Apply

variable {file loaded : Ps3ElfFile} {entry : EntryDescriptor} {T : BitVec 32} {path : List Byte}
variable {r : TrampolineResult} {entryOffset : BitVec 64} {originals resumed : List Instruction}
variable {flags : BitVec 32} {align : BitVec 64}

theorem load_of_addLoadSegment
    (h : file.addLoadSegment (T.setWidth 64) r.blob flags align = some loaded)
    : file.load { vaddr := T.setWidth 64, data := r.blob, flags, align } = some loaded := by
  exact h

variable (b : Built file entry T path r entryOffset originals resumed)
variable (hload : file.addLoadSegment (T.setWidth 64) r.blob flags align = some loaded)
include b hload

theorem Built.lookup_loaded (hentry : resolveEntryDescriptor file = .ok entry)
    : loaded.vaddrToFileOffset (r.entryPatchAddr.setWidth 64) = .ok entryOffset := by
  have haddr : r.entryPatchAddr.setWidth 64 = entry.codeAddress := by
    rw [b.result]
    apply setWidth_entryAddr hentry
  obtain ⟨raw, hraw, hloaded⟩ := (addLoadSegment_eq_some_iff _ _ _).mp (load_of_addLoadSegment hload)
  rw [Bytes.append_eq_some_iff] at hraw
  rw [haddr]
  apply vaddrToFileOffset_append file loaded _ _ _ (by rw [hloaded]) _ b.offset
  rw [hloaded]
  unfold Bytes.size
  rw [hraw, List.length_append]
  omega

theorem Built.patch_loaded
    : ∃ raw, loaded.patchBytesAt entryOffset r.entryPatchBytes = .ok { loaded with raw }
        ∧ entryOffset.toNat + r.entryPatchBytes.length ≤ file.raw.size
        ∧ raw.toList = splice loaded.raw.toList entryOffset.toNat r.entryPatchBytes := by
  have hfits := b.fits
  rw [← b.length_entryPatchBytes] at hfits
  obtain ⟨raw, hraw, hloaded⟩ := (addLoadSegment_eq_some_iff _ _ _).mp (load_of_addLoadSegment hload)
  rw [Bytes.append_eq_some_iff] at hraw
  have hin : entryOffset.toNat + r.entryPatchBytes.length ≤ loaded.raw.size := by
    rw [hloaded]
    unfold Bytes.size at *
    rw [hraw, List.length_append]
    omega
  have hwrite : ∃ raw, loaded.raw.write entryOffset.toNat r.entryPatchBytes = some raw :=
    ⟨_, dif_pos hin⟩
  obtain ⟨raw', hwrite⟩ := hwrite
  refine ⟨raw', ?_, hfits, ((Bytes.write_eq_some_iff _ _ _ _).mp hwrite).right⟩
  rw [patchBytesAt_eq_ok_iff]
  exact ⟨raw', hwrite, rfl⟩

end Apply

-- The call of `addLoadSegment` in a run.
def trampolineLoad (run : Run) : LoadSegment where
  vaddr := run.trampolineAddr.setWidth 64
  data := run.tramp.blob
  flags := PF_R ||| PF_X
  align := 0x10000

/--
What a successful run has found and done.
-/
structure Patched (bytes : Bytes) (path : List Byte) (run : Run) : Prop where
  wellFormed : WellFormed true .Big bytes
  file : run.file = fileOf true .Big bytes
  entry : resolveEntryDescriptor run.file = .ok run.entry
  fresh : isAlreadyPatched run.file = false
  addr : run.trampolineAddr = pickTrampolineAddr run.file
  built : buildTrampoline run.file run.entry run.trampolineAddr path = .ok run.tramp
  lookup : run.file.vaddrToFileOffset run.entry.codeAddress = .ok run.entryOffset
  window : run.entryOffset.toNat + run.tramp.entryPatchBytes.length ≤ bytes.size
  header : run.patched.header = run.file.header.withTable (BitVec.ofNat 64 run.patched.raw.size)
    (BitVec.ofNat 16 (run.file.segments.length + 1))
  segments : run.patched.segments = run.file.segments ++ [run.file.nextPhdr (trampolineLoad run)]
  sections : run.patched.sections = run.file.sections
  raw : run.patched.raw.toList
    = splice (bytes.toList ++ run.tramp.blob) run.entryOffset.toNat run.tramp.entryPatchBytes
  output : run.patched.serialize = some run.outBytes

section Steps

variable {bytes outBytes : Bytes} {path : List Byte} {entry : EntryDescriptor}
variable {tramp : TrampolineResult} {loaded patched : Ps3ElfFile} {entryOffset : BitVec 64}

theorem Patched.of_steps (hwf : WellFormed true .Big bytes)
    (hentry : resolveEntryDescriptor (fileOf true .Big bytes) = .ok entry)
    (hfresh : isAlreadyPatched (fileOf true .Big bytes) = false)
    (hbuilt : buildTrampoline (fileOf true .Big bytes) entry
      (pickTrampolineAddr (fileOf true .Big bytes)) path = .ok tramp)
    (hload : (fileOf true .Big bytes).addLoadSegment
      ((pickTrampolineAddr (fileOf true .Big bytes)).setWidth 64) tramp.blob (PF_R ||| PF_X) 0x10000
        = some loaded)
    (hlookup : loaded.vaddrToFileOffset (tramp.entryPatchAddr.setWidth 64) = .ok entryOffset)
    (hpatch : loaded.patchBytesAt entryOffset tramp.entryPatchBytes = .ok patched)
    (hout : patched.serialize = some outBytes)
    : Patched bytes path
        { file := fileOf true .Big bytes, entry
          trampolineAddr := pickTrampolineAddr (fileOf true .Big bytes)
          tramp, entryOffset, patched, outBytes } := by
  obtain ⟨offset, originals, resumed, b⟩ := built_of_buildTrampoline _ _ _ _ _ hbuilt
  rw [b.lookup_loaded hload hentry, Except.ok.injEq] at hlookup
  subst hlookup
  obtain ⟨raw', hpatch', hwindow, hlist'⟩ := b.patch_loaded hload
  rw [hpatch', Except.ok.injEq] at hpatch
  obtain ⟨raw, hraw, hloaded⟩ := (addLoadSegment_eq_some_iff _ _ _).mp (load_of_addLoadSegment hload)
  rw [Bytes.append_eq_some_iff] at hraw
  rw [hloaded] at hlist'
  dsimp only at hlist'
  have hsize : raw'.size = raw.size := by
    unfold Bytes.size at *
    rw [hlist', length_splice]
    rw [hraw, List.length_append]
    omega
  constructor
  . exact hwf
  . rfl
  . exact hentry
  . exact hfresh
  . rfl
  . exact hbuilt
  . exact b.offset
  . exact hwindow
  . rw [← hpatch, hloaded]
    dsimp only
    rw [hsize]
  . rw [← hpatch, hloaded]
    rfl
  . rw [← hpatch, hloaded]
  . rw [← hpatch]
    dsimp only
    rw [hlist', hraw]
    rfl
  . exact hout

end Steps

theorem patched_of_patch (inputPath : String) (bytes : Bytes) (path : List Byte) (run : Run)
    (h : patch inputPath bytes path = .ok run)
    : Patched bytes path run := by
  unfold patch at h
  split at h
  . contradiction
  . next file hparse =>
    rw [parseAny_eq_ok_iff] at hparse
    obtain ⟨is64, E, hwf, hof⟩ := hparse
    obtain ⟨hwf, rfl⟩ := be64_of_eq bytes file hwf hof
    split at h
    . contradiction
    . next entry hentry =>
      rw [ite_error_eq_ok_iff] at h
      obtain ⟨hfresh, h⟩ := h
      dsimp only at h
      split at h
      . contradiction
      . contradiction
      . next tramp hbuilt =>
        split at h
        . contradiction
        . next loaded hload =>
          split at h
          . contradiction
          . next entryOffset hlookup =>
            split at h
            . contradiction
            . next patched hpatch =>
              split at h
              . contradiction
              . next outBytes hout =>
                rw [Except.ok.injEq] at h
                rw [← h]
                exact .of_steps hwf hentry (eq_false_of_ne_true hfresh) hbuilt hload hlookup hpatch hout
  . contradiction

theorem parseAny_of_parse (bytes : Bytes) (file : Ps3ElfFile) (h : ElfFile.parse true .Big bytes = .ok file)
    : parseAny bytes = .ok (.be64 file) := by
  rw [parse_eq_ok_iff] at h
  rw [parseAny_eq_ok_iff]
  refine ⟨true, .Big, h.left, ?_⟩
  rw [h.right]
  rfl

/--
Behind the appended segment nothing fails: the entry point is where the displaced instructions have been
read and there is room for the jump. A run that gets there ends with an output, or because there is no
memory left for it.
-/
theorem patch_applies (bytes : Bytes) (file : Ps3ElfFile) (entry : EntryDescriptor) (T : BitVec 32)
    (path : List Byte) (r : TrampolineResult) (hparse : ElfFile.parse true .Big bytes = .ok file)
    (hentry : resolveEntryDescriptor file = .ok entry)
    (hbuilt : buildTrampoline file entry T path = .ok r)
    : (∀ (flags : BitVec 32) (align : BitVec 64) (loaded : Ps3ElfFile),
        file.addLoadSegment (T.setWidth 64) r.blob flags align = some loaded →
        ∃ offset raw, file.vaddrToFileOffset entry.codeAddress = .ok offset
          ∧ loaded.vaddrToFileOffset (r.entryPatchAddr.setWidth 64) = .ok offset
          ∧ loaded.patchBytesAt offset r.entryPatchBytes = .ok { loaded with raw }
          ∧ r.entryPatchBytes.length = 4 * r.displacedInstructionCount
          ∧ offset.toNat + 4 * r.displacedInstructionCount ≤ file.raw.size
          ∧ raw.toList = splice loaded.raw.toList offset.toNat r.entryPatchBytes)
        ∧
      ∀ inputPath message, T = pickTrampolineAddr file →
        patch inputPath bytes path ≠ .error (.exit message) := by
  obtain ⟨offset, originals, resumed, b⟩ := built_of_buildTrampoline _ _ _ _ _ hbuilt
  have hlen := b.length_entryPatchBytes
  have hcount := b.count_eq
  constructor
  . intro flags align loaded hload
    obtain ⟨raw, hpatch, hfits, hraw⟩ := b.patch_loaded hload
    refine ⟨offset, raw, b.offset, b.lookup_loaded hload hentry, hpatch, ?_, ?_, hraw⟩
    . omega
    . omega
  . intro inputPath message hT
    have hfresh := b.fresh
    unfold patch
    rw [parseAny_of_parse bytes file hparse]
    dsimp only
    rw [hentry]
    dsimp only
    rw [hfresh, ← hT, hbuilt]
    simp only [Bool.false_eq_true, ↓reduceIte]
    split
    . simp
    . next loaded hload =>
      obtain ⟨raw, hpatch, -, -⟩ := b.patch_loaded hload
      rw [b.lookup_loaded hload hentry]
      dsimp only
      rw [hpatch]
      dsimp only
      split
      . simp
      . simp

theorem patch_applies_plainSample
    : ∃ r loaded offset raw,
        buildTrampoline (fileOf true .Big plainSample) ⟨0x10080, 0x30000, 0⟩ 0x20000 [0x61] = .ok r
          ∧ (fileOf true .Big plainSample).addLoadSegment 0x20000 r.blob (PF_R ||| PF_X) 0x10000 = some loaded
          ∧ loaded.vaddrToFileOffset (r.entryPatchAddr.setWidth 64) = .ok offset
          ∧ loaded.patchBytesAt offset r.entryPatchBytes = .ok { loaded with raw } := by
  have hparse : ElfFile.parse true .Big plainSample = .ok (fileOf true .Big plainSample) := by
    apply parse_of_wellFormed
    constructor <;> decide +kernel
  have hentry : resolveEntryDescriptor (fileOf true .Big plainSample) = .ok ⟨0x10080, 0x30000, 0⟩ := by
    decide +kernel
  have hload : ((buildTrampoline (fileOf true .Big plainSample) ⟨0x10080, 0x30000, 0⟩ 0x20000
      [0x61]).toOption.bind fun r => (fileOf true .Big plainSample).addLoadSegment 0x20000 r.blob
        (PF_R ||| PF_X) 0x10000).isSome = true := by
    decide +kernel
  have hok : (buildTrampoline (fileOf true .Big plainSample) ⟨0x10080, 0x30000, 0⟩ 0x20000
      [0x61]).isOk = true := by
    decide +kernel
  obtain ⟨r, hr⟩ := exists_ok_of_isOk hok
  rw [hr, Except.toOption, Option.bind_some] at hload
  obtain ⟨loaded, hload⟩ := Option.isSome_iff_exists.mp hload
  obtain ⟨offset, raw, -, hlookup, hpatch, -⟩ :=
    (patch_applies _ _ _ 0x20000 _ r hparse hentry hr).left _ _ loaded hload
  exact ⟨r, loaded, offset, raw, hr, hload, hlookup, hpatch⟩

namespace Patched

variable {bytes : Bytes} {path : List Byte} {run : Run} (p : Patched bytes path run)
include p

theorem size_raw : run.patched.raw.size = bytes.size + run.tramp.blob.length := by
  have hwindow := p.window
  unfold Bytes.size at *
  rw [p.raw, length_splice _ _ _ (by rw [List.length_append]; omega), List.length_append]

theorem length_old : run.file.segments.length = (headerOf true .Big bytes).e_phnum.toNat := by
  rw [p.file]
  apply Codec.length_decodeAll

theorem length_segments
    : run.patched.segments.length = (headerOf true .Big bytes).e_phnum.toNat + 1 := by
  rw [p.segments, List.length_append, p.length_old, List.length_singleton]

theorem mutated : Mutated bytes run.patched := by
  have hsize := p.size_raw
  constructor
  . exact p.wellFormed
  . rw [p.header, p.segments, List.length_append, List.length_singleton, p.file]
    rfl
  . rw [p.sections, p.file]
  . omega
  . have := run.patched.raw.size_lt
    show _ < 2 ^ 64
    omega

theorem toList_outBytes : run.outBytes.toList = run.patched.withShdrs := by
  rw [← p.mutated.serialize_eq_some_iff]
  exact p.output

theorem size_outBytes
    : run.outBytes.size
        =
      bytes.size + run.tramp.blob.length + 56 * ((headerOf true .Big bytes).e_phnum.toNat + 1) := by
  unfold Bytes.size
  rw [p.toList_outBytes, p.mutated.length_withShdrs, p.size_raw, p.length_segments, Nat.mul_comm 56]
  rfl

theorem getElem?_raw (i : Nat) (h : i < bytes.size) (hwindow : i < run.entryOffset.toNat
      ∨ run.entryOffset.toNat + run.tramp.entryPatchBytes.length ≤ i)
    : run.patched.raw.toList[i]? = bytes.toList[i]? := by
  have hin := p.window
  unfold Bytes.size at *
  rw [p.raw, getElem?_splice_of_not_mem _ _ _ _ (by rw [List.length_append]; omega) hwindow]
  rw [List.getElem?_append_left h]

theorem slice_raw_blob
    : slice run.patched.raw.toList bytes.size run.tramp.blob.length = run.tramp.blob := by
  have hin := p.window
  unfold Bytes.size at *
  rw [p.raw, slice_splice_of_disjoint]
  . apply slice_append_right
    rfl
  . rw [List.length_append]
    omega
  . omega

theorem getElem?_outBytes (i : Nat) (hi : i < bytes.size) (hphoff : i < 32 ∨ 40 ≤ i)
    (hphnum : i < 56 ∨ 58 ≤ i) (hwindow : i < run.entryOffset.toNat
      ∨ run.entryOffset.toNat + run.tramp.entryPatchBytes.length ≤ i)
    : run.outBytes.toList[i]? = bytes.toList[i]? := by
  have m := p.mutated
  have hraw := p.size_raw
  rw [p.toList_outBytes]
  by_cases hin : run.patched.header.e_shoff.toNat ≤ i ∧ i < run.patched.header.e_shoff.toNat
      + run.patched.header.e_shnum.toNat * (Shdr.codec true .Big).size
  . rw [m.getElem?_sections i hin.left hin.right]
  . rw [m.getElem?_not_sections i (by omega), m.getElem?_withPhdrs_of_lt i (by omega)]
    rcases Nat.lt_or_ge i (Ehdr.codec true .Big).size with hlt | hge
    . rw [getElem?_withHeader _ i hlt, m.getElem?_encode_header i hlt hphoff hphnum]
    . rw [getElem?_withHeader_of_ge _ i hge, p.getElem?_raw i hi hwindow]

theorem encodeAll_segments
    : (Phdr.codec true .Big).encodeAll run.patched.segments
        =
      slice bytes.toList (headerOf true .Big bytes).e_phoff.toNat
          (56 * (headerOf true .Big bytes).e_phnum.toNat)
        ++ (Phdr.codec true .Big).encode (run.file.nextPhdr (trampolineLoad run)) := by
  have hfit := p.wellFormed.phdrs_fit
  have hlen := length_slice bytes.toList _ _ hfit
  rw [p.segments, Codec.encodeAll_append, p.file, Nat.mul_comm 56]
  congr 1
  apply Codec.encodeAll_decodeAll
  exact hlen

end Patched

/--
The output of a successful run is the input up to the two header fields and the window at the entry
point, then the blob, then the old program headers and the new one.
-/
theorem patch_frame (inputPath : String) (bytes : Bytes) (path : List Byte) (run : Run)
    (h : patch inputPath bytes path = .ok run)
    : run.file.vaddrToFileOffset run.entry.codeAddress = .ok run.entryOffset
        ∧
      run.outBytes.size
          = bytes.size + run.tramp.blob.length + 56 * ((headerOf true .Big bytes).e_phnum.toNat + 1)
        ∧
      (∀ i < bytes.size, (i < 32 ∨ 40 ≤ i) → (i < 56 ∨ 58 ≤ i) →
        (i < run.entryOffset.toNat
          ∨ run.entryOffset.toNat + 4 * run.tramp.displacedInstructionCount ≤ i) →
        run.outBytes.toList[i]? = bytes.toList[i]?)
        ∧
      slice run.outBytes.toList bytes.size run.tramp.blob.length = run.tramp.blob
        ∧
      run.outBytes.toList.drop (bytes.size + run.tramp.blob.length)
          = slice bytes.toList (headerOf true .Big bytes).e_phoff.toNat
              (56 * (headerOf true .Big bytes).e_phnum.toNat)
            ++ (Phdr.codec true .Big).encode (.load (BitVec.ofNat 64 bytes.size)
              (run.trampolineAddr.setWidth 64) (BitVec.ofNat 64 run.tramp.blob.length) 0x10000
              (PF_R ||| PF_X)) := by
  have p := patched_of_patch inputPath bytes path run h
  have m := p.mutated
  have hraw := p.size_raw
  obtain ⟨offset, originals, resumed, b⟩ := built_of_buildTrampoline _ _ _ _ _ p.built
  have hcount : run.tramp.displacedInstructionCount * 4 = run.tramp.entryPatchBytes.length := by
    rw [b.length_entryPatchBytes, b.count_eq]
  refine ⟨p.lookup, p.size_outBytes, ?_, ?_, ?_⟩
  . intro i hi hphoff hphnum hwindow
    apply p.getElem?_outBytes i hi hphoff hphnum
    omega
  . rw [p.toList_outBytes, m.slice_withShdrs _ _ (Nat.le_refl _) (by omega), p.slice_raw_blob]
  . have hlen := m.length_withShdrs
    have hrest : run.patched.withShdrs.drop run.patched.raw.size
        = slice run.patched.withShdrs run.patched.raw.size
          (run.patched.segments.length * (Phdr.codec true .Big).size) := by
      unfold slice
      rw [List.take_of_length_le]
      rw [List.length_drop]
      omega
    rw [p.toList_outBytes, ← hraw, hrest, m.slice_segments, p.encodeAll_segments, p.file]
    rfl

theorem isOk_patch_plainSample : (patch "EBOOT.elf" plainSample [0x61]).isOk = true := by
  decide +kernel

theorem patch_frame_plainSample
    : ∃ run, patch "EBOOT.elf" plainSample [0x61] = .ok run
        ∧ run.outBytes.size = plainSample.size + run.tramp.blob.length
          + 56 * ((headerOf true .Big plainSample).e_phnum.toNat + 1) := by
  obtain ⟨run, hrun⟩ := exists_ok_of_isOk isOk_patch_plainSample
  obtain ⟨-, hsize, -⟩ := patch_frame _ _ _ _ hrun
  exact ⟨run, hrun, hsize⟩

end Ps3patch
end ElfCraft
