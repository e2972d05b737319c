import ElfCraft.Ps3patch.Lemmas.Patch

/-!
This module contains the choice of the address of the new segment. Nothing in it is checked, so it is
above all the old segments exactly when there is room for that in 32 bits.
-/

namespace ElfCraft
namespace Ps3patch

open Binary Elf ElfFile

theorem alignUp_mod (v : BitVec 64) : (alignUp v 0x10000).toNat % 65536 = 0 := by
  unfold alignUp
  rw [if_neg (by decide), BitVec.toNat_mul]
  show _ * 65536 % 2 ^ 64 % 65536 = 0
  omega

theorem toNat_alignUp (v : BitVec 64) (h : v.toNat + 65535 < 2 ^ 64)
    : (alignUp v 0x10000).toNat = (v.toNat + 65535) / 65536 * 65536 := by
  have hsum : (v + 0x10000 - 1).toNat = v.toNat + 65535 := by
    rw [BitVec.toNat_sub, BitVec.toNat_add]
    show (2 ^ 64 - 1 + (v.toNat + 65536) % 2 ^ 64) % 2 ^ 64 = _
    omega
  unfold alignUp
  rw [if_neg (by decide), BitVec.toNat_mul, BitVec.toNat_udiv, hsum]
  show (v.toNat + 65535) / 65536 * 65536 % 2 ^ 64 = _
  omega

-- The end of a segment in memory, without wrapping around.
def endOf (ph : Phdr true .Big) : Nat := ph.p_vaddr.toNat + ph.p_memsz.toNat

theorem toNat_vaddr_add_memsz (ph : Phdr true .Big) (h : endOf ph < 2 ^ 64)
    : (ph.p_vaddr + ph.p_memsz).toNat = endOf ph := by
  rw [BitVec.toNat_add, ← endOf, Nat.mod_eq_of_lt h]

section HighestEnd

variable (bound : Nat) (hbound : bound < 2 ^ 64)
include hbound

theorem highestEnd.go_bounds (h : BitVec 64) (phdrs : List (Phdr true .Big)) (hh : h.toNat ≤ bound)
    (hphdrs : ∀ ph ∈ phdrs, ph.p_type = PT_LOAD → endOf ph ≤ bound)
    : h.toNat ≤ (go h phdrs).toNat ∧ (go h phdrs).toNat ≤ bound
        ∧ ∀ ph ∈ phdrs, ph.p_type = PT_LOAD → endOf ph ≤ (go h phdrs).toNat := by
  induction phdrs generalizing h with
  | nil =>
    refine ⟨Nat.le_refl _, hh, ?_⟩
    simp
  | cons ph phdrs ih =>
    rw [List.forall_mem_cons] at hphdrs
    rw [List.forall_mem_cons]
    obtain ⟨hph, hrest⟩ := hphdrs
    simp only [go]
    by_cases htype : ph.p_type = PT_LOAD
    . rw [if_neg (by simp [htype])]
      have hend := hph htype
      have hval := toNat_vaddr_add_memsz ph (by omega)
      split
      . next hgt =>
        rw [gt_iff_lt, BitVec.lt_def, hval] at hgt
        obtain ⟨h1, h2, h3⟩ := ih (ph.p_vaddr + ph.p_memsz) (by omega) hrest
        rw [hval] at h1
        exact ⟨by omega, h2, fun _ => h1, h3⟩
      . next hle =>
        rw [gt_iff_lt, BitVec.lt_def, hval] at hle
        obtain ⟨h1, h2, h3⟩ := ih h hh hrest
        exact ⟨h1, h2, fun _ => by omega, h3⟩
    . rw [if_pos htype]
      obtain ⟨h1, h2, h3⟩ := ih h hh hrest
      exact ⟨h1, h2, fun hload => absurd hload htype, h3⟩

end HighestEnd

theorem pickTrampolineAddr_mod (file : Ps3ElfFile) : (pickTrampolineAddr file).toNat % 65536 = 0 := by
  have hmod := alignUp_mod (highestEnd file.segments)
  unfold pickTrampolineAddr
  rw [BitVec.toNat_setWidth]
  omega

theorem endOf_le_pickTrampolineAddr (file : Ps3ElfFile)
    (h : ∀ ph ∈ file.segments, ph.p_type = PT_LOAD → endOf ph ≤ 0xFFFF0000)
    : ∀ ph ∈ file.segments, ph.p_type = PT_LOAD → endOf ph ≤ (pickTrampolineAddr file).toNat := by
  obtain ⟨-, hle, hall⟩ := highestEnd.go_bounds 0xFFFF0000 (by omega) 0 file.segments (by simp) h
  replace hle : (highestEnd file.segments).toNat ≤ 0xFFFF0000 := hle
  intro ph hmem htype
  have hend : endOf ph ≤ (highestEnd file.segments).toNat := hall ph hmem htype
  have hup := toNat_alignUp (highestEnd file.segments) (by omega)
  unfold pickTrampolineAddr
  rw [BitVec.toNat_setWidth, hup]
  omega

/-
Ranges of virtual addresses over the natural numbers.
-/

def AboveAndDisjoint (start size : Nat) (ph : Phdr true .Big) : Prop :=
  endOf ph ≤ start
    ∧ ∀ a, start ≤ a → a < start + size → ¬ (ph.p_vaddr.toNat ≤ a ∧ a < endOf ph)

theorem aboveAndDisjoint_iff (start size : Nat) (ph : Phdr true .Big)
    : AboveAndDisjoint start size ph ↔ endOf ph ≤ start := by
  unfold AboveAndDisjoint
  constructor
  . intro h
    exact h.left
  . intro h
    refine ⟨h, ?_⟩
    intro a ha _ hin
    omega

/--
The new segment is above and disjoint from all the old ones exactly when they end at `0xFFFF0000` or
below.
-/
theorem patch_address_iff (inputPath : String) (bytes : Bytes) (path : List Byte) (run : Run)
    (h : patch inputPath bytes path = .ok run)
    : (∀ ph ∈ run.file.segments, ph.p_type = PT_LOAD →
        AboveAndDisjoint run.trampolineAddr.toNat run.tramp.blob.length ph)
        ↔
      ∀ ph ∈ run.file.segments, ph.p_type = PT_LOAD → endOf ph ≤ 0xFFFF0000 := by
  have p := patched_of_patch inputPath bytes path run h
  simp only [aboveAndDisjoint_iff]
  rw [p.addr]
  constructor
  . intro hall ph hmem htype
    have hend := hall ph hmem htype
    have hmod := pickTrampolineAddr_mod run.file
    have hlt := (pickTrampolineAddr run.file).isLt
    omega
  . apply endOf_le_pickTrampolineAddr

theorem patch_address_plainSample
    : ∃ run, patch "EBOOT.elf" plainSample [0x61] = .ok run
        ∧ ((∀ ph ∈ run.file.segments, ph.p_type = PT_LOAD →
            AboveAndDisjoint run.trampolineAddr.toNat run.tramp.blob.length ph)
          ↔ ∀ ph ∈ run.file.segments, ph.p_type = PT_LOAD → endOf ph ≤ 0xFFFF0000) := by
  obtain ⟨run, hrun⟩ := exists_ok_of_isOk isOk_patch_plainSample
  exact ⟨run, hrun, patch_address_iff _ _ _ _ hrun⟩

-- The second segment ends at `0x100008000`, the address behind it is cut to the start of the first one.
def wrappedSample : Bytes :=
  ⟨sample [(0x10000, 0x1000), (0x100000000, 0x8000)] 0, by decide +kernel⟩

theorem patch_address_wrappedSample
    : ∃ run, patch "EBOOT.elf" wrappedSample [0x61] = .ok run
        ∧ ∃ ph ∈ run.file.segments, ph.p_type = PT_LOAD
          ∧ ¬ AboveAndDisjoint run.trampolineAddr.toNat run.tramp.blob.length ph := by
  have hok : (patch "EBOOT.elf" wrappedSample [0x61]).isOk = true := by
    decide +kernel
  have hbelow : ((patch "EBOOT.elf" wrappedSample [0x61]).toOption.map fun run =>
      decide (∃ ph ∈ run.file.segments, ph.p_type = PT_LOAD ∧ ¬ endOf ph ≤ run.trampolineAddr.toNat))
        = some true := by
    decide +kernel
  obtain ⟨run, hrun⟩ := exists_ok_of_isOk hok
  rw [hrun, Except.toOption, Option.map_some, Option.some.injEq, decide_eq_true_eq] at hbelow
  simp only [aboveAndDisjoint_iff]
  exact ⟨run, hrun, hbelow⟩

end Ps3patch
end ElfCraft
