import ElfCraft.Ps3patch.Lemmas.Chain
import ElfCraft.Ps3patch.Lemmas.Info
import ElfCraft.Ps3patch.Lemmas.Session

/-!
This module contains what `--info` tells about the output of a patch.
-/

namespace ElfCraft
namespace Ps3patch

open Binary Elf ElfFile

/--
The row of the new segment in the report about the output.
-/
def trampolineShown (run : Run) : SegmentShown where
  p_type := PT_LOAD
  readable := true
  writable := false
  executable := true
  p_vaddr := run.trampolineAddr.setWidth 64
  p_offset := BitVec.ofNat 64 run.file.raw.size
  p_filesz := BitVec.ofNat 64 run.tramp.blob.length
  p_memsz := BitVec.ofNat 64 run.tramp.blob.length

/--
What there is to tell about the input, with another status and one more row.
-/
def patchedShown (run : Run) : InfoShown :=
  let shown := infoShown run.file run.entry
  { shown with patched := true, segments := shown.segments ++ [trampolineShown run] }

theorem segmentShown_nextPhdr (run : Run)
    : segmentShown (run.file.nextPhdr (trampolineLoad run)) = trampolineShown run := by
  unfold nextPhdr segmentShown trampolineShown
  rw [Phdr.p_type_load, Phdr.p_flags_load, Phdr.p_vaddr_load _ _ _ _ _ (BitVec.isLt _),
    Phdr.p_offset_load _ _ _ _ _ (BitVec.isLt _), Phdr.p_filesz_load _ _ _ _ _ (BitVec.isLt _),
    Phdr.p_memsz_load _ _ _ _ _ (BitVec.isLt _)]
  have hreadable : (PF_R ||| PF_X) &&& PF_R ≠ 0 := by decide
  have hwritable : ¬ ((PF_R ||| PF_X) &&& PF_W ≠ 0) := by decide
  have hexecutable : (PF_R ||| PF_X) &&& PF_X ≠ 0 := by decide
  rw [SegmentShown.mk.injEq]
  exact ⟨rfl, decide_eq_true hreadable, decide_eq_false hwritable, decide_eq_true hexecutable, rfl, rfl,
    rfl, rfl⟩

namespace Patched

variable {bytes : Bytes} {path : List Byte} {run : Run} (p : Patched bytes path run)
include p

theorem infoShown_reparsed : infoShown (reparsed run) run.entry = patchedShown run := by
  have hsegments : (reparsed run).segments = run.file.segments ++ [run.file.nextPhdr (trampolineLoad run)] :=
    p.segments
  have hheader : (reparsed run).header = _ := p.header
  have hpatched : isAlreadyPatched (reparsed run) = true := p.isAlreadyPatched_out
  unfold patchedShown infoShown ElfFile.entry
  rw [hsegments, hheader, hpatched, List.map_append, List.map_singleton, segmentShown_nextPhdr,
    Ehdr.e_machine_withTable, Ehdr.e_type_withTable, Ehdr.e_flags_withTable, Ehdr.e_entry_withTable]

theorem formatInfo_file : formatInfo run.file = .ok (reportText (infoShown run.file run.entry)) := by
  have hlen := p.length_old
  have hcount := (headerOf true .Big bytes).e_phnum.isLt
  exact formatInfo_of_entry (by omega) p.entry

theorem formatInfo_reparsed (hclear : DescriptorClear run.file run.entry run.trampolineAddr)
    : formatInfo (reparsed run) = .ok (reportText (patchedShown run)) := by
  have hlen : (reparsed run).segments.length = _ := p.length_segments
  have hcount := (headerOf true .Big bytes).e_phnum.isLt
  rw [formatInfo_of_entry (by omega) (p.resolveEntryDescriptor_of_clear hclear), p.infoShown_reparsed]

end Patched

section Invoke

variable {File : Type} [DecidableEq File] {resolve : Arg → File} {world : World File}

theorem files_invoke_of_patches {inv : Invocation} {outputPath : Arg} {run : Run}
    (hpatches : inv.Patches resolve world outputPath run) (hopened : inv.outcome.opened = true)
    : (inv.invoke resolve world).1.files
        =
      (world.put (resolve outputPath) (arrived run.outBytes inv.outcome.kept)).files := by
  have ⟨inputPath, sprxPath, bytes, hargs, hread, hpatch⟩ := hpatches
  have ⟨printed, h⟩ := mainPatch_eq_finish inv.outcome inputPath outputPath sprxPath world bytes hread
  unfold Invocation.invoke main
  rw [hargs]
  dsimp only
  rw [h, hpatch]
  unfold finish
  dsimp only
  rw [writeFile_of_opened resolve hopened]
  dsimp only
  split <;> rfl

theorem invoke_info {info : Invocation} {flag infoPath : Arg} {bytes : Bytes} {file : Ps3ElfFile}
    {report : String} (hargs : info.args = [flag, infoPath]) (hflag : flag.text = "--info")
    (hread : world.files (resolve infoPath) = some bytes) (hparse : parseAny bytes = .ok (.be64 file))
    (hreport : formatInfo file = .ok report)
    : info.invoke resolve world = (world.printf report, .exit 0) := by
  unfold Invocation.invoke main
  rw [hargs]
  dsimp only
  rw [if_pos hflag]
  unfold mainInfo readFile
  rw [hread]
  dsimp only
  rw [hparse]
  dsimp only
  rw [hreport]

end Invoke

/--
`--info` on the output of a patch prints the report of the input with the status changed and a last row
for the new segment.
-/
theorem info_after_patch {File : Type} [DecidableEq File] (resolve : Arg → File) (world : World File)
    (inv info : Invocation) (outputPath flag infoPath : Arg) (run : Run)
    (hpatches : inv.Patches resolve world outputPath run)
    (hopened : inv.outcome.opened = true) (hkept : run.outBytes.size ≤ inv.outcome.kept)
    (hsections : run.file.SectionsClear) (hcount : run.file.segments.length < 65535)
    (hdescriptor : DescriptorClear run.file run.entry run.trampolineAddr)
    (hargs : info.args = [flag, infoPath]) (hflag : flag.text = "--info")
    (hsame : resolve infoPath = resolve outputPath)
    : formatInfo run.file = .ok (reportText (infoShown run.file run.entry))
        ∧ (infoShown run.file run.entry).patched = false
        ∧ info.invoke resolve (inv.invoke resolve world).1
            =
          ((inv.invoke resolve world).1.printf (reportText (patchedShown run)), .exit 0) := by
  have hfiles := files_invoke_of_patches hpatches hopened
  have ⟨inputPath, sprxPath, bytes, _, _, hpatch⟩ := hpatches
  have p := patched_of_patch _ bytes sprxPath run hpatch
  rw [p.length_old] at hcount
  refine ⟨p.formatInfo_file, p.fresh, ?_⟩
  apply invoke_info hargs hflag _ (p.parseAny_outBytes hsections hcount) (p.formatInfo_reparsed hdescriptor)
  rw [hfiles, hsame, World.files_put_self, arrived_of_size_le hkept]

theorem patches_plainWorld {run : Run} (h : patch "EBOOT.elf" plainSample sprxArg = .ok run) (kept : Nat)
    : (patchInvocation ebootArg kept).Patches id plainWorld outArg run := by
  have htext : ebootArg.text = "EBOOT.elf" := by
    decide
  refine ⟨ebootArg, sprxArg, plainSample, rfl, rfl, ?_⟩
  rw [htext]
  exact h

theorem descriptorClear_plainSample {path : List Byte} {run : Run} (p : Patched plainSample path run)
    : DescriptorClear run.file run.entry run.trampolineAddr := by
  have ⟨hfile, hentry, haddr⟩ := p.plainSample_eq
  rw [hfile, hentry, haddr]
  apply chainClear_plainSample.descriptor

theorem info_after_patch_plainWorld
    : ∃ run flag, patch "EBOOT.elf" plainSample sprxArg = .ok run
        ∧ (let world := ((patchInvocation ebootArg run.outBytes.size).invoke id plainWorld).1
          ({ outcome := ⟨true, true, 0⟩, argv0 := [], args := [flag, outArg] } : Invocation).invoke id world
            =
          (world.printf (reportText (patchedShown run)), .exit 0)) := by
  have ⟨run, hrun⟩ := exists_ok_of_isOk isOk_patch_plainSample
  have p := patched_of_patch _ _ _ _ hrun
  have ⟨hsections, hcount⟩ := p.tame tame_plainSample
  have hdescriptor := descriptorClear_plainSample p
  rw [← p.length_old] at hcount
  refine ⟨run, [0x2D, 0x2D, 0x69, 0x6E, 0x66, 0x6F], hrun, ?_⟩
  apply (info_after_patch id plainWorld _ _ outArg _ outArg run (patches_plainWorld hrun _) rfl
    (Nat.le_refl _) hsections hcount hdescriptor rfl (by decide) rfl).right.right

end Ps3patch
end ElfCraft
