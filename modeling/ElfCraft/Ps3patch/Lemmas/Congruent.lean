import ElfCraft.Elf.Lemmas.Congruent
import ElfCraft.Ps3patch.Lemmas.Address

/-!
This module contains the place of the new segment in the output next to its address: the address is
rounded up to the alignment of the segment, the size of the input is not.
-/

namespace ElfCraft
namespace Ps3patch

open Binary Elf ElfFile

theorem congruentAt_trampolineLoad {bytes : Bytes} {path : List Byte} {run : Run} (p : Patched bytes path run)
    : (trampolineLoad run).CongruentAt bytes.size ↔ bytes.size % 0x10000 = 0 := by
  have haddr : (trampolineLoad run).vaddr.toNat % 0x10000 = 0 := by
    show (run.trampolineAddr.setWidth 64).toNat % 65536 = 0
    have hmod := pickTrampolineAddr_mod run.file
    rw [BitVec.toNat_setWidth, p.addr]
    omega
  have halign : (trampolineLoad run).align.toNat = 0x10000 := rfl
  unfold LoadSegment.CongruentAt
  rw [halign, haddr]

theorem congruent_patch_iff {inputPath : String} {bytes : Bytes} {path : List Byte} {run : Run}
    (h : patch inputPath bytes path = .ok run)
    : ∃ ph, run.patched.segments = run.file.segments ++ [ph] ∧ (ph.Congruent ↔ bytes.size % 0x10000 = 0) := by
  have p := patched_of_patch inputPath bytes path run h
  have hsize : run.file.raw.size = bytes.size := by
    rw [p.file]
    rfl
  refine ⟨_, p.segments, ?_⟩
  rw [congruent_nextPhdr_iff, hsize, congruentAt_trampolineLoad p]

/--
The segment of the trampoline can be mapped exactly if the size of the input is a multiple of its
alignment, and the segments of any run of the mutators if the file has the right size at each call.
-/
theorem patch_congruent_iff (inputPath : String) (bytes : Bytes) (path : List Byte) (run : Run)
    (h : patch inputPath bytes path = .ok run)
    : (∃ ph, run.patched.segments = run.file.segments ++ [ph]
        ∧ (ph.Congruent ↔ bytes.size % 0x10000 = 0))
        ∧
      ∀ (E : Endian) (f g : ElfFile true E) (mutations : List Mutation), f.mutates mutations = some g →
        ((∀ ph ∈ f.added g, ph.Congruent) ↔ CallsCongruent f.raw.size mutations) := by
  constructor
  . apply congruent_patch_iff h
  . intro E f g mutations hrun
    apply congruent_mutates_iff hrun

theorem patch_congruent_plainSample
    : ∃ run, patch "EBOOT.elf" plainSample [0x61] = .ok run
        ∧ ∃ ph, run.patched.segments = run.file.segments ++ [ph]
          ∧ (ph.Congruent ↔ plainSample.size % 0x10000 = 0) := by
  obtain ⟨run, hrun⟩ := exists_ok_of_isOk isOk_patch_plainSample
  exact ⟨run, hrun, (patch_congruent_iff _ _ _ _ hrun).left⟩

/--
An input of 152 bytes.
-/
theorem patch_not_congruent_plainSample
    : ¬ ∀ (inputPath : String) (bytes : Bytes) (path : List Byte) (run : Run),
        patch inputPath bytes path = .ok run →
          ∀ ph, run.patched.segments = run.file.segments ++ [ph] → ph.Congruent := by
  intro hall
  obtain ⟨run, hrun⟩ := exists_ok_of_isOk isOk_patch_plainSample
  obtain ⟨ph, hph, hiff⟩ := congruent_patch_iff hrun
  have hsize := hiff.mp (hall _ _ _ _ hrun ph hph)
  revert hsize
  decide +kernel

end Ps3patch
end ElfCraft
