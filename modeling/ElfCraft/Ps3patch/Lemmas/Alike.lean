import ElfCraft.Exec.Lockstep
import ElfCraft.Ps3patch.Lemmas.Refuse
import ElfCraft.Ps3patch.Lemmas.Session

/-!
This module contains runs that are alike: from another input of the same size or with another path, but with the
same headers and a trampoline of the same size.
-/

namespace ElfCraft
namespace Ps3patch

open Binary Elf ElfFile Ppc Exec detail

/-
What other bytes of the same size do not change.
-/

section Raw

variable {is64 : Bool} {E : Endian} (f : ElfFile is64 E) {raw : Bytes} (hsize : raw.size = f.raw.size)
include hsize

theorem vaddrToFileOffset_of_raw (vaddr : BitVec 64)
    : ({ f with raw } : ElfFile is64 E).vaddrToFileOffset vaddr = f.vaddrToFileOffset vaddr := by
  have hgo (phdrs : List (Phdr is64 E))
      : vaddrToFileOffset.go ({ f with raw } : ElfFile is64 E) vaddr phdrs = vaddrToFileOffset.go f vaddr phdrs := by
    induction phdrs with
    | nil => rfl
    | cons ph phdrs ih => simp only [vaddrToFileOffset.go, hsize, ih]
  apply hgo

theorem readAt_of_raw (offset length : BitVec 64)
    (hslice : slice raw.toList offset.toNat length.toNat = slice f.raw.toList offset.toNat length.toNat)
    : ({ f with raw } : ElfFile is64 E).readAt offset length = f.readAt offset length := by
  unfold readAt
  rw [hslice, hsize]

theorem mutated_of_raw {bytes : Bytes} (m : Mutated bytes f) : Mutated bytes { f with raw } := by
  refine ⟨m.wellFormed, ?_, m.sections, ?_, ?_⟩
  . dsimp only
    rw [hsize, m.header]
  . dsimp only
    rw [hsize]
    exact m.size
  . dsimp only
    rw [hsize]
    exact m.width

end Raw

/-
The steps behind the parser.
-/

theorem patch_of_steps (inputPath : String) {bytes outBytes : Bytes} {path : List Byte} {entry : EntryDescriptor}
    {tramp : TrampolineResult} {file loaded patched : Ps3ElfFile} {entryOffset : BitVec 64}
    (hparse : parseAny bytes = .ok (.be64 file)) (hentry : resolveEntryDescriptor file = .ok entry)
    (hfresh : isAlreadyPatched file = false)
    (hbuilt : buildTrampoline file entry (pickTrampolineAddr file) path = .ok tramp)
    (hload : file.addLoadSegment ((pickTrampolineAddr file).setWidth 64) tramp.blob (PF_R ||| PF_X) 0x10000
        = some loaded)
    (hlookup : loaded.vaddrToFileOffset (tramp.entryPatchAddr.setWidth 64) = .ok entryOffset)
    (hpatch : loaded.patchBytesAt entryOffset tramp.entryPatchBytes = .ok patched)
    (hout : patched.serialize = some outBytes)
    : patch inputPath bytes path = .ok
        { file, entry, trampolineAddr := pickTrampolineAddr file, tramp, entryOffset, patched, outBytes } := by
  unfold patch
  rw [hparse]
  dsimp only
  rw [hentry]
  dsimp only
  rw [if_neg (by rw [hfresh]; decide), hbuilt]
  dsimp only
  rw [hload]
  dsimp only
  rw [hlookup]
  dsimp only
  rw [hpatch]
  dsimp only
  rw [hout]

/--
Behind the builder only memory can run out.
-/
theorem terminate_of_built (inputPath : String) {bytes : Bytes} {path : List Byte} {file : Ps3ElfFile}
    {entry : EntryDescriptor} {tramp : TrampolineResult} {stop : Stop} (hparse : parseAny bytes = .ok (.be64 file))
    (hentry : resolveEntryDescriptor file = .ok entry)
    (hbuilt : buildTrampoline file entry (pickTrampolineAddr file) path = .ok tramp)
    (h : patch inputPath bytes path = .error stop)
    : stop = .terminate := by
  have ⟨offset, originals, resumed, b⟩ := built_of_buildTrampoline _ _ _ _ _ hbuilt
  unfold patch at h
  rw [hparse] at h
  dsimp only at h
  rw [hentry] at h
  dsimp only at h
  rw [if_neg (by rw [b.fresh]; decide), hbuilt] at h
  dsimp only at h
  split at h
  . exact (Except.error.inj h).symm
  . next loaded hload =>
    have ⟨raw, hpatch, _, _⟩ := b.patch_loaded hload
    rw [b.lookup_loaded hload hentry] at h
    dsimp only at h
    rw [hpatch] at h
    dsimp only at h
    split at h
    . exact (Except.error.inj h).symm
    . contradiction

/--
Two runs go on in lockstep if they find the same entry point at the same address, both builders do, and wherever
the one succeeds the other one does.
-/
theorem lockstep_of_built {R : Run → Run → Prop} {Q : EntryDescriptor → TrampolineResult → TrampolineResult → Prop}
    (inputPath : String) {bytes bytes' : Bytes} {path path' : List Byte} {file file' : Ps3ElfFile}
    (hparse : parseAny bytes = .ok (.be64 file)) (hparse' : parseAny bytes' = .ok (.be64 file'))
    (hentry : resolveEntryDescriptor file' = resolveEntryDescriptor file)
    (hfresh : isAlreadyPatched file' = isAlreadyPatched file)
    (hbuild : ∀ entry, resolveEntryDescriptor file = .ok entry →
      Lockstep (Q entry) (buildTrampoline file entry (pickTrampolineAddr file) path)
        (buildTrampoline file' entry (pickTrampolineAddr file') path'))
    (hok : ∀ run, patch inputPath bytes path = .ok run → ∃ run', patch inputPath bytes' path' = .ok run' ∧ R run run')
    (hok' : ∀ run', patch inputPath bytes' path' = .ok run' → ∃ run, patch inputPath bytes path = .ok run)
    : Lockstep R (patch inputPath bytes path) (patch inputPath bytes' path') := by
  cases h : patch inputPath bytes path with
  | ok run =>
    have ⟨run', h', hrun⟩ := hok run h
    rw [h']
    exact .ok run run' hrun
  | error stop =>
    cases h' : patch inputPath bytes' path' with
    | ok run' =>
      have ⟨run, hrun⟩ := hok' run' h'
      rw [h] at hrun
      contradiction
    | error stop' =>
      suffices hsame : stop = stop' by
        rw [hsame]
        exact .error stop'
      cases hdescriptor : resolveEntryDescriptor file with
      | error e =>
        unfold patch at h h'
        simp only [hparse, hparse', hentry, hdescriptor] at h h'
        exact (Except.error.inj h).symm.trans (Except.error.inj h')
      | ok entry =>
        have hlockstep := hbuild entry hdescriptor
        rw [hdescriptor] at hentry
        generalize hleft : buildTrampoline file entry (pickTrampolineAddr file) path = left at hlockstep
        generalize hright : buildTrampoline file' entry (pickTrampolineAddr file') path' = right at hlockstep
        cases hlockstep with
        | ok r r' _ =>
          rw [terminate_of_built inputPath hparse hdescriptor hleft h,
            terminate_of_built inputPath hparse' hentry hright h']
        | error e =>
          unfold patch at h h'
          simp only [hparse, hparse', hentry, hdescriptor, hfresh, hleft, hright] at h h'
          split at h
          . next hpatched =>
            rw [if_pos hpatched] at h'
            exact (Except.error.inj h).symm.trans (Except.error.inj h')
          . next hpatched =>
            rw [if_neg hpatched] at h'
            cases e with
            | error e => exact (Except.error.inj h).symm.trans (Except.error.inj h')
            | exception e => exact (Except.error.inj h).symm.trans (Except.error.inj h')

/--
`run'` is `run` on the bytes of another input and with the trampoline `r`.
-/
structure Alike (bytes : Bytes) (r : TrampolineResult) (run run' : Run) : Prop where
  file : run'.file = { run.file with raw := bytes }
  entry : run'.entry = run.entry
  trampolineAddr : run'.trampolineAddr = run.trampolineAddr
  tramp : run'.tramp = r
  entryOffset : run'.entryOffset = run.entryOffset
  patched : run'.patched = { run.patched with raw := run'.patched.raw }
  raw : run'.patched.raw.toList
    = splice (bytes.toList ++ r.blob) run.entryOffset.toNat run.tramp.entryPatchBytes
  outBytes : run'.outBytes.toList = run'.patched.withShdrs

namespace Patched

variable {bytes : Bytes} {path : List Byte} {run : Run} (p : Patched bytes path run)
include p

theorem exists_alike (inputPath : String) (bytes' : Bytes) {path' : List Byte} {r' : TrampolineResult}
    (hsize : bytes'.size = bytes.size) (hparse : parseAny bytes' = .ok (.be64 { run.file with raw := bytes' }))
    (hentry : resolveEntryDescriptor { run.file with raw := bytes' } = .ok run.entry)
    (hfresh : isAlreadyPatched { run.file with raw := bytes' } = false)
    (hbuilt : buildTrampoline { run.file with raw := bytes' } run.entry run.trampolineAddr path' = .ok r')
    (hblob : r'.blob.length = run.tramp.blob.length) (hjump : r'.entryPatchBytes = run.tramp.entryPatchBytes)
    : ∃ run', patch inputPath bytes' path' = .ok run' ∧ Alike bytes' r' run run' := by
  have hraw : run.file.raw = bytes := by
    rw [p.file]
    rfl
  have hsizeRaw := p.size_raw
  have hmax := run.patched.raw.size_le
  have hwindow := p.window
  -- the appended segment
  have happendLength : (bytes'.toList ++ r'.blob).length = run.patched.raw.size := by
    rw [List.length_append, hblob, hsizeRaw, ← hsize]
    rfl
  have ⟨appended, happended⟩ : ∃ appended : Bytes, appended.toList = bytes'.toList ++ r'.blob :=
    ⟨⟨_, by rw [happendLength]; exact hmax⟩, rfl⟩
  have happendedSize : appended.size = run.patched.raw.size := by
    rw [← happendLength, ← happended]
    rfl
  have hnextPhdr : ElfFile.nextPhdr { run.file with raw := bytes' } { trampolineLoad run with data := r'.blob }
      = run.file.nextPhdr (trampolineLoad run) := by
    unfold nextPhdr
    dsimp only
    rw [hblob, hsize, hraw]
    rfl
  have hload : ElfFile.addLoadSegment { run.file with raw := bytes' } (run.trampolineAddr.setWidth 64) r'.blob
      (PF_R ||| PF_X) 0x10000 = some { run.patched with raw := appended } := by
    apply (addLoadSegment_eq_some_iff _ _ { trampolineLoad run with data := r'.blob }).mpr
    refine ⟨appended, by rw [Bytes.append_eq_some_iff, happended], ?_⟩
    rw [hnextPhdr, happendedSize]
    dsimp only
    rw [← p.header, ← p.segments, ← p.sections]
  -- the jump
  have ⟨offset, originals, resumed, b⟩ := built_of_buildTrampoline _ _ _ _ _ hbuilt
  have hoffset := b.offset
  rw [vaddrToFileOffset_of_raw _ (by rw [hsize, hraw]), p.lookup, Except.ok.injEq] at hoffset
  rw [← hoffset] at b
  have hlookup := b.lookup_loaded hload hentry
  have ⟨raw, hpatch, _, hlist⟩ := b.patch_loaded hload
  rw [happended, hjump] at hlist
  have hrawSize : raw.size = run.patched.raw.size := by
    unfold Bytes.size at *
    rw [hlist, length_splice _ _ _ (by rw [happendLength]; omega), happendLength]
  -- the output
  have m := mutated_of_raw run.patched hrawSize p.mutated
  have hle : ({ run.patched with raw } : Ps3ElfFile).withShdrs.length ≤ maxSize := by
    have hmax := run.outBytes.size_le
    rw [p.toList_outBytes, p.mutated.length_withShdrs] at hmax
    rw [m.length_withShdrs, hrawSize]
    exact hmax
  have ⟨out, hout⟩ : ∃ out : Bytes, out.toList = ({ run.patched with raw } : Ps3ElfFile).withShdrs :=
    ⟨⟨_, hle⟩, rfl⟩
  have hserialize := (m.serialize_eq_some_iff out).mpr hout
  have haddr : run.trampolineAddr = pickTrampolineAddr { run.file with raw := bytes' } := p.addr
  rw [haddr] at hbuilt hload
  refine ⟨_, patch_of_steps inputPath hparse hentry hfresh hbuilt hload hlookup hpatch hserialize, ?_⟩
  exact ⟨rfl, rfl, haddr.symm, rfl, rfl, rfl, hlist, hout⟩

end Patched

end Ps3patch
end ElfCraft
