import ElfCraft.Elf.Lemmas.Parse

/-!
This module contains the translation of virtual addresses, the first PT_LOAD segment whose file backed
range contains the address decides, and the reads at the offsets that it leads to.
-/

namespace ElfCraft
namespace Elf

open Binary

variable {is64 : Bool} {E : Endian}

-- The test of the loop, the end of the range is computed modulo `2 ^ 64`.
def Phdr.covers (vaddr : BitVec 64) (ph : Phdr is64 E) : Bool :=
  decide (ph.p_type = PT_LOAD ∧ ph.p_vaddr ≤ vaddr ∧ vaddr < ph.p_vaddr + ph.p_filesz)

namespace ElfFile

def found (ph : Phdr is64 E) (vaddr : BitVec 64) : BitVec 64 :=
  ph.p_offset + (vaddr - ph.p_vaddr)

theorem vaddrToFileOffset.go_eq_ok_iff (f : ElfFile is64 E) (vaddr offset : BitVec 64)
    (phdrs : List (Phdr is64 E))
    : go f vaddr phdrs = .ok offset
        ↔
      ∃ ph, phdrs.find? (Phdr.covers vaddr) = some ph ∧ offset = found ph vaddr
        ∧ offset.toNat ≤ f.raw.size := by
  induction phdrs with
  | nil => simp [go]
  | cons ph phdrs ih =>
    simp only [go]
    by_cases htype : ph.p_type = PT_LOAD
    . by_cases hrange : ph.p_vaddr ≤ vaddr ∧ vaddr < ph.p_vaddr + ph.p_filesz
      . have hcovers : Phdr.covers vaddr ph = true := by
          unfold Phdr.covers
          rw [decide_eq_true_eq]
          exact ⟨htype, hrange⟩
        rw [if_neg (by simp [htype]), if_pos hrange, ite_error_eq_ok_iff, List.find?_cons_of_pos hcovers]
        simp only [Option.some.injEq, exists_eq_left', Except.ok.injEq]
        rw [← found]
        constructor
        . rintro ⟨hle, heq⟩
          rw [← heq]
          exact ⟨rfl, by omega⟩
        . rintro ⟨heq, hle⟩
          rw [← heq]
          exact ⟨by omega, rfl⟩
      . have hcovers : ¬ Phdr.covers vaddr ph = true := by
          unfold Phdr.covers
          rw [decide_eq_true_eq]
          exact fun h => hrange h.right
        rw [if_neg (by simp [htype]), if_neg hrange, ih, List.find?_cons_of_neg hcovers]
    . have hcovers : ¬ Phdr.covers vaddr ph = true := by
        unfold Phdr.covers
        rw [decide_eq_true_eq]
        exact fun h => htype h.left
      rw [if_pos htype, ih, List.find?_cons_of_neg hcovers]

theorem vaddrToFileOffset_eq_ok_iff (f : ElfFile is64 E) (vaddr offset : BitVec 64)
    : f.vaddrToFileOffset vaddr = .ok offset
        ↔
      ∃ ph, f.segments.find? (Phdr.covers vaddr) = some ph ∧ offset = found ph vaddr
        ∧ offset.toNat ≤ f.raw.size := by
  apply vaddrToFileOffset.go_eq_ok_iff

theorem vaddrToFileOffset_append (f g : ElfFile is64 E) (phdrs : List (Phdr is64 E))
    (vaddr offset : BitVec 64) (hsegments : g.segments = f.segments ++ phdrs)
    (hsize : f.raw.size ≤ g.raw.size) (h : f.vaddrToFileOffset vaddr = .ok offset)
    : g.vaddrToFileOffset vaddr = .ok offset := by
  rw [vaddrToFileOffset_eq_ok_iff] at *
  obtain ⟨ph, hph, hoffset, hle⟩ := h
  refine ⟨ph, ?_, hoffset, by omega⟩
  rw [hsegments, List.find?_append, hph, Option.some_or]

/--
An address that no segment covers is looked up in the segments behind.
-/
theorem vaddrToFileOffset_of_not_covered (g : ElfFile is64 E) (phdrs : List (Phdr is64 E))
    (ph : Phdr is64 E) (vaddr offset : BitVec 64) (hsegments : g.segments = phdrs ++ [ph])
    (hnot : ∀ ph ∈ phdrs, Phdr.covers vaddr ph = false) (hcovers : Phdr.covers vaddr ph = true)
    (hoffset : offset = found ph vaddr) (hsize : offset.toNat ≤ g.raw.size)
    : g.vaddrToFileOffset vaddr = .ok offset := by
  rw [vaddrToFileOffset_eq_ok_iff]
  have hnone : phdrs.find? (Phdr.covers vaddr) = none := by
    rw [List.find?_eq_none]
    intro ph hph
    rw [hnot ph hph]
    exact Bool.false_ne_true
  refine ⟨ph, ?_, hoffset, hsize⟩
  rw [hsegments, List.find?_append, hnone, Option.none_or, List.find?_cons_of_pos hcovers]

theorem readAt_eq_ok_iff (f : ElfFile is64 E) (offset : BitVec 64) (n : Nat) (bytes : List Byte)
    (hn : n < 2 ^ 64)
    : f.readAt offset (BitVec.ofNat 64 n) = .ok bytes
        ↔
      offset.toNat + n ≤ f.raw.size ∧ bytes = slice f.raw.toList offset.toNat n := by
  have hval : (BitVec.ofNat 64 n).toNat = n := by
    rw [BitVec.toNat_ofNat, Nat.mod_eq_of_lt hn]
  unfold readAt
  rw [hval]
  split
  . next h =>
    rw [detail.regionFits_bytes_iff, Nat.mul_one] at h
    simp only [Except.ok.injEq, h, true_and]
    rw [eq_comm]
  . next h =>
    rw [detail.regionFits_bytes_iff, Nat.mul_one] at h
    simp [h]

end ElfFile

end Elf
end ElfCraft
