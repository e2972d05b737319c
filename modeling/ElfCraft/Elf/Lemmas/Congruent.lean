import ElfCraft.Elf.Lemmas.Append

/-!
This module contains what a loader that maps the file needs of a new segment: its place in the file and
its address agree modulo the alignment. Nothing in `addLoadSegment` sees to it, the place is the size that
the file has at the time of the call.
-/

namespace ElfCraft
namespace Elf

open Binary

variable {is64 : Bool} {E : Endian}

/--
The congruence that the System V ABI asks for.
-/
def Phdr.Congruent (ph : Phdr is64 E) : Prop :=
  ph.p_offset.toNat % ph.p_align.toNat = ph.p_vaddr.toNat % ph.p_align.toNat

def LoadSegment.CongruentAt (call : LoadSegment) (size : Nat) : Prop :=
  size % call.align.toNat = call.vaddr.toNat % call.align.toNat

/--
Every call of a run finds a file of the right size, the first one a file of `size` bytes.
-/
def CallsCongruent (size : Nat) (mutations : List Mutation) : Prop :=
  match mutations with
  | [] => True
  | .addLoadSegment call :: mutations =>
    call.CongruentAt size ∧ CallsCongruent (size + call.data.length) mutations
  | _ :: mutations => CallsCongruent size mutations

namespace ElfFile

theorem congruent_nextPhdr_iff (f : ElfFile true E) (call : LoadSegment)
    : (f.nextPhdr call).Congruent ↔ call.CongruentAt f.raw.size := by
  have hvaddr : (f.nextPhdr call).p_vaddr = call.vaddr := by
    apply Phdr.p_vaddr_load
    exact BitVec.isLt _
  have halign : (f.nextPhdr call).p_align = call.align := by
    apply Phdr.p_align_load
    exact BitVec.isLt _
  unfold Phdr.Congruent LoadSegment.CongruentAt
  rw [toNat_p_offset_nextPhdr, hvaddr, halign]

theorem segments_mutate_patchBytesAt {f g : ElfFile is64 E} {offset : BitVec 64} {newBytes : List Byte}
    (h : f.mutate (.patchBytesAt offset newBytes) = some g)
    : g.segments = f.segments := by
  simp only [mutate] at h
  split at h
  . next f' hpatch =>
    obtain ⟨raw, -, hf'⟩ := (patchBytesAt_eq_ok_iff f f' offset newBytes).mp hpatch
    rw [← Option.some.inj h, hf']
  . rw [Option.some.inj h]

-- The segments that a run has added.
def added (f g : ElfFile is64 E) : List (Phdr is64 E) := g.segments.drop f.segments.length

theorem added_of_segments_eq {f f' g : ElfFile is64 E} (h : f'.segments = f.segments)
    : f.added g = f'.added g := by
  unfold added
  rw [h]

theorem added_cons {f f' g : ElfFile is64 E} {ph : Phdr is64 E} {mutations : List Mutation}
    (h : f'.segments = f.segments ++ [ph]) (hrun : f'.mutates mutations = some g)
    : f.added g = ph :: f'.added g := by
  obtain ⟨news, hnews, -⟩ := (Grown.mutates mutations hrun).segments
  unfold added
  rw [hnews, h, List.drop_left, List.append_assoc, List.drop_left, List.singleton_append]

theorem congruent_mutates_iff {f g : ElfFile true E} {mutations : List Mutation}
    (hrun : f.mutates mutations = some g)
    : (∀ ph ∈ f.added g, ph.Congruent) ↔ CallsCongruent f.raw.size mutations := by
  induction mutations generalizing f with
  | nil =>
    rw [← Option.some.inj hrun]
    simp [added, CallsCongruent]
  | cons mutation mutations ih =>
    rw [mutates, List.foldlM_cons, Option.bind_eq_bind, Option.bind_eq_some_iff] at hrun
    obtain ⟨f', hstep, hrest⟩ := hrun
    have hsize := (Grown.mutate mutation hstep).size
    cases mutation with
    | setEntry addr =>
      have hsegments : f'.segments = f.segments := by
        rw [← Option.some.inj hstep]
        rfl
      rw [added_of_segments_eq hsegments, ih hrest, hsize]
      rfl
    | patchBytesAt offset newBytes =>
      rw [added_of_segments_eq (segments_mutate_patchBytesAt hstep), ih hrest, hsize]
      rfl
    | addLoadSegment call =>
      have hsegments : f'.segments = f.segments ++ [f.nextPhdr call] := by
        obtain ⟨raw, -, rfl⟩ := (addLoadSegment_eq_some_iff f f' call).mp hstep
        rfl
      rw [added_cons hsegments hrest, List.forall_mem_cons, ih hrest, hsize, congruent_nextPhdr_iff]
      rfl

end ElfFile

end Elf
end ElfCraft
