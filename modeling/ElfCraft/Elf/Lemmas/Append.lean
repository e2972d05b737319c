import ElfCraft.Binary.Ranges
import ElfCraft.Elf.Lemmas.Bounds

/-!
This module contains runs that append segments and patch bytes of an ELF64 file in any order: where the
segments, their bytes and the program header table are at the end of such a run.
-/

namespace ElfCraft
namespace Elf

open Binary

variable {is64 : Bool} {E : Endian}

-- The bytes of a segment in the file.
def Phdr.range (ph : Phdr is64 E) : Nat × Nat := (ph.p_offset.toNat, ph.p_filesz.toNat)

namespace ElfFile

-- The calls of a run in which every patch succeeds.
def edit (f : ElfFile is64 E) (mutation : Mutation) : Option (ElfFile is64 E) :=
  match mutation with
  | .patchBytesAt offset newBytes => (f.patchBytesAt offset newBytes).toOption
  | mutation => f.mutate mutation

def edits (f : ElfFile is64 E) (mutations : List Mutation) : Option (ElfFile is64 E) :=
  mutations.foldlM edit f

theorem edits_cons_eq_some_iff (f g : ElfFile is64 E) (mutation : Mutation) (mutations : List Mutation)
    : f.edits (mutation :: mutations) = some g
        ↔
      ∃ f', f.edit mutation = some f' ∧ f'.edits mutations = some g := by
  unfold edits
  rw [List.foldlM_cons, Option.bind_eq_bind, Option.bind_eq_some_iff]

theorem edit_patchBytesAt_eq_some_iff (f g : ElfFile is64 E) (offset : BitVec 64) (newBytes : List Byte)
    : f.edit (.patchBytesAt offset newBytes) = some g
        ↔
      ∃ raw, f.raw.write offset.toNat newBytes = some raw ∧ g = { f with raw } := by
  rw [← patchBytesAt_eq_ok_iff]
  unfold edit
  dsimp only
  generalize f.patchBytesAt offset newBytes = result
  cases result with
  | error e => simp [Except.toOption]
  | ok f' => simp [Except.toOption]

theorem mutate_of_edit {f g : ElfFile is64 E} {mutation : Mutation} (h : f.edit mutation = some g)
    : f.mutate mutation = some g := by
  cases mutation with
  | patchBytesAt offset newBytes =>
    rw [edit_patchBytesAt_eq_some_iff, ← patchBytesAt_eq_ok_iff] at h
    simp only [mutate, h]
  | _ => exact h

-- The two numbers fit into the fields of an ELF64 file.
theorem toNat_p_offset_nextPhdr (f : ElfFile true E) (call : LoadSegment)
    : (f.nextPhdr call).p_offset.toNat = f.raw.size := by
  have hsize := f.raw.size_lt
  have hval := toNat_ofNat_of_lt true f.raw.size (by show _ < 2 ^ 64; omega)
  unfold nextPhdr
  rw [Phdr.p_offset_load _ _ _ _ _ (by exact BitVec.isLt _), hval]

theorem toNat_p_filesz_nextPhdr {f g : ElfFile true E} {call : LoadSegment} (h : f.load call = some g)
    : (f.nextPhdr call).p_filesz.toNat = call.data.length := by
  have hsize := size_load f g call h
  have hlt := g.raw.size_lt
  have hval := toNat_ofNat_of_lt true call.data.length (by show _ < 2 ^ 64; omega)
  unfold nextPhdr
  rw [Phdr.p_filesz_load _ _ _ _ _ (by exact BitVec.isLt _), hval]

-- Where the program header table goes to.
def TableAtEnd (f : ElfFile is64 E) : Prop := f.header.e_phoff.toNat = f.raw.size

theorem tableAtEnd_load {f g : ElfFile true E} {call : LoadSegment} (h : f.load call = some g)
    : g.TableAtEnd := by
  obtain ⟨raw, -, rfl⟩ := (addLoadSegment_eq_some_iff f g call).mp h
  have hsize := raw.size_lt
  unfold TableAtEnd
  dsimp only
  rw [Ehdr.e_phoff_withTable _ _ _ (by exact BitVec.isLt _), BitVec.toNat_ofNat, Nat.mod_eq_of_lt (by omega)]

theorem TableAtEnd.edit {f g : ElfFile true E} {mutation : Mutation} (h : f.edit mutation = some g)
    (hend : f.TableAtEnd)
    : g.TableAtEnd := by
  cases mutation with
  | setEntry addr =>
    rw [← Option.some.inj h]
    exact hend
  | patchBytesAt offset newBytes =>
    have hsize : g.raw.size = f.raw.size := (Grown.mutate _ (mutate_of_edit h)).size
    obtain ⟨raw, -, rfl⟩ := (edit_patchBytesAt_eq_some_iff f g offset newBytes).mp h
    exact hend.trans hsize.symm
  | addLoadSegment call => exact tableAtEnd_load h

theorem TableAtEnd.edits {f g : ElfFile true E} {mutations : List Mutation} (h : f.edits mutations = some g)
    (hend : f.TableAtEnd)
    : g.TableAtEnd := by
  induction mutations generalizing f with
  | nil =>
    rw [← Option.some.inj h]
    exact hend
  | cons mutation mutations ih =>
    rw [edits_cons_eq_some_iff] at h
    obtain ⟨f', hstep, hrest⟩ := h
    exact ih hrest (hend.edit hstep)

theorem isSome_edits_wholeSample
    : ((fileOf true .Big wholeSample).edits
        [.addLoadSegment fourBytes, .patchBytesAt 0x79 [0x4E, 0x80], .addLoadSegment fourBytes]).isSome := by
  decide +kernel

end ElfFile

end Elf
end ElfCraft
