import ElfCraft.Binary.Image
import ElfCraft.Elf.Lemmas.Append
import Mathlib.Data.List.Find

/-!
This module contains the memory image of an ELF file: what the address translation finds is what the loadable
segments map, and the mutators of a file do to the image what they do to a mapped file.
-/

namespace ElfCraft
namespace Elf

open Binary

-- An added segment ends below `2 ^ 64`.
def Mutation.Fits (mutation : Mutation) : Prop :=
  match mutation with
  | .addLoadSegment call => call.vaddr.toNat + call.data.length < 2 ^ 64
  | _ => True

instance (mutation : Mutation) : Decidable mutation.Fits := by
  unfold Mutation.Fits
  split <;> infer_instance

def stepMapped (m : MappedFile Byte) (mutation : Mutation) : MappedFile Byte :=
  match mutation with
  | .setEntry _ => m
  | .patchBytesAt offset newBytes => m.overwrite offset.toNat newBytes
  | .addLoadSegment call => m.append call.vaddr.toNat call.data

namespace ElfFile

variable {is64 : Bool} {E : Endian}

-- The byte that the file's own translation leads to, where segments overlap it takes the first one.
def byteAt (f : ElfFile is64 E) (vaddr : BitVec 64) : Option Byte :=
  match f.vaddrToFileOffset vaddr with
  | .error _ => none
  | .ok offset => f.raw.toList[offset.toNat]?

def mapping (f : ElfFile is64 E) (ph : Phdr is64 E) : Mapping Byte where
  base := ph.p_vaddr.toNat
  offset := ph.p_offset.toNat
  data := slice f.raw.toList ph.p_offset.toNat ph.p_filesz.toNat

def mapped (f : ElfFile is64 E) : MappedFile Byte where
  size := f.raw.size
  mappings := (f.segments.filter fun ph => ph.p_type = PT_LOAD).map f.mapping

/--
Each loadable segment is in the file and ends below `2 ^ 64`.
-/
def Mappable (f : ElfFile is64 E) : Prop :=
  ∀ ph ∈ f.segments, ph.p_type = PT_LOAD →
    ph.p_offset.toNat + ph.p_filesz.toNat ≤ f.raw.size ∧ ph.fileEnd < 2 ^ 64

instance (f : ElfFile is64 E) : Decidable f.Mappable := by
  unfold Mappable
  infer_instance

theorem contains_mapping (f : ElfFile is64 E) {ph : Phdr is64 E} (htype : ph.p_type = PT_LOAD)
    (hin : ph.p_offset.toNat + ph.p_filesz.toNat ≤ f.raw.size) (a : Nat)
    : (f.mapping ph).Contains a ↔ ph.Contains a := by
  have hlen := length_slice f.raw.toList _ _ hin
  unfold Mapping.Contains Phdr.Contains Phdr.fileEnd mapping
  dsimp only
  rw [hlen]
  simp only [htype, true_and]

theorem first_mapped {f : ElfFile is64 E} (h : f.Mappable) (a : Nat)
    : f.mapped.first a = (f.firstMatch a).map f.mapping := by
  unfold MappedFile.first mapped firstMatch
  dsimp only
  rw [List.find?_map, List.find?_filter]
  congr 1
  apply List.find?_congr
  intro ph hph
  rw [Bool.eq_iff_iff]
  simp only [Function.comp_apply, decide_eq_true_eq]
  constructor
  . rintro ⟨htype, hcontains⟩
    have ⟨hin, hend⟩ := h ph hph htype
    exact ⟨(f.contains_mapping htype hin a).mp hcontains, hend⟩
  . rintro ⟨hcontains, hend⟩
    have htype := hcontains.left
    have ⟨hin, _⟩ := h ph hph htype
    exact ⟨htype, (f.contains_mapping htype hin a).mpr hcontains⟩

theorem place_lt {f : ElfFile is64 E} (h : f.Mappable) {a : Nat} {ph : Phdr is64 E}
    (hfirst : f.firstMatch a = some ph)
    : ph.place a < f.raw.size := by
  have ⟨hmem, hcontains, _⟩ := firstMatch_spec f a ph hfirst
  have ⟨hin, _⟩ := h ph hmem hcontains.left
  have hlt := hcontains.right
  unfold Phdr.fileEnd at hlt
  unfold Phdr.place
  omega

theorem byteAt_of_mappable {f : ElfFile is64 E} (h : f.Mappable) (vaddr : BitVec 64)
    : f.byteAt vaddr
        =
      (f.firstMatch vaddr.toNat).bind fun ph => f.raw.toList[ph.place vaddr.toNat]? := by
  unfold byteAt
  cases hfirst : f.firstMatch vaddr.toNat with
  | none =>
    have hnot (offset : BitVec 64) : f.vaddrToFileOffset vaddr ≠ .ok offset := by
      rw [ne_eq, vaddrToFileOffset_eq_ok_iff_place, hfirst]
      simp
    cases hlookup : f.vaddrToFileOffset vaddr with
    | error e => rfl
    | ok offset => exact absurd hlookup (hnot offset)
  | some ph =>
    have hsize := f.raw.size_lt
    have hplace := place_lt h hfirst
    have hlookup : f.vaddrToFileOffset vaddr = .ok (BitVec.ofNat 64 (ph.place vaddr.toNat)) := by
      rw [vaddrToFileOffset_eq_ok_iff_place]
      refine ⟨ph, hfirst, ?_, ?_⟩
      . rw [BitVec.toNat_ofNat]
      . rw [BitVec.toNat_ofNat, Nat.mod_eq_of_lt (by omega)]
        omega
    rw [hlookup]
    dsimp only
    rw [BitVec.toNat_ofNat, Nat.mod_eq_of_lt (by omega), Option.bind_some]

/--
The lookup of an address and the read of the byte are the image of the mapped segments.
-/
theorem byteAt_eq_mapped {f : ElfFile is64 E} (h : f.Mappable) (vaddr : BitVec 64)
    : f.byteAt vaddr = f.mapped.image vaddr.toNat := by
  rw [byteAt_of_mappable h, MappedFile.image_eq_first, first_mapped h]
  cases hfirst : f.firstMatch vaddr.toNat with
  | none => rfl
  | some ph =>
    have ⟨hmem, hcontains, _⟩ := firstMatch_spec f _ ph hfirst
    have ⟨hin, _⟩ := h ph hmem hcontains.left
    have hlt := hcontains.right
    unfold Phdr.fileEnd at hlt
    rw [Option.map_some, Option.bind_some, Option.bind_some,
      Mapping.get_of_contains ((f.contains_mapping hcontains.left hin _).mpr hcontains)]
    unfold mapping
    dsimp only
    rw [getElem?_slice, if_pos (by omega)]
    rfl

section Step

/-
What a mutator does to a file that can be mapped, it does to what is mapped.
-/

theorem mappable_edit {f g : ElfFile true E} {mutation : Mutation} (h : f.edit mutation = some g)
    (hf : f.Mappable) (hfits : mutation.Fits)
    : g.Mappable := by
  have hgrown := Grown.mutate mutation (mutate_of_edit h)
  have hsize := hgrown.size
  have kept (ph : Phdr true E) (hph : ph ∈ f.segments) (htype : ph.p_type = PT_LOAD)
      : ph.p_offset.toNat + ph.p_filesz.toNat ≤ g.raw.size ∧ ph.fileEnd < 2 ^ 64 := by
    have ⟨hin, hend⟩ := hf ph hph htype
    exact ⟨by omega, hend⟩
  cases mutation with
  | setEntry addr =>
    rw [← Option.some.inj h] at *
    exact hf
  | patchBytesAt offset newBytes =>
    have ⟨raw, _, hg⟩ := (edit_patchBytesAt_eq_some_iff f g offset newBytes).mp h
    subst hg
    exact kept
  | addLoadSegment call =>
    have hoffset := toNat_p_offset_nextPhdr f call
    have hfilesz := toNat_p_filesz_nextPhdr h
    have hvaddr : (f.nextPhdr call).p_vaddr = call.vaddr := by
      apply Phdr.p_vaddr_load
      exact BitVec.isLt _
    have ⟨raw, _, hg⟩ := (addLoadSegment_eq_some_iff f g call).mp h
    subst hg
    intro ph hph htype
    rw [List.mem_append, List.mem_singleton] at hph
    cases hph with
    | inl hph => apply kept ph hph htype
    | inr hph =>
      rw [hph, hoffset, hfilesz, hsize]
      unfold Phdr.fileEnd
      rw [hfilesz, hvaddr]
      exact ⟨Nat.le_refl _, hfits⟩

theorem mapped_patchBytesAt {f g : ElfFile is64 E} {offset : BitVec 64} {newBytes : List Byte}
    (h : f.edit (.patchBytesAt offset newBytes) = some g) (hf : f.Mappable)
    : g.mapped = f.mapped.overwrite offset.toNat newBytes := by
  have ⟨raw, hwrite, hg⟩ := (edit_patchBytesAt_eq_some_iff f g offset newBytes).mp h
  have ⟨hnew, hraw⟩ := (Bytes.write_eq_some_iff _ _ _ _).mp hwrite
  subst hg
  unfold mapped MappedFile.overwrite
  dsimp only
  congr 1
  . unfold Bytes.size at *
    rw [hraw, length_splice _ _ _ hnew]
  . rw [List.map_map]
    apply List.map_congr_left
    intro ph hph
    rw [List.mem_filter, decide_eq_true_eq] at hph
    have ⟨hin, _⟩ := hf ph hph.left hph.right
    unfold mapping Function.comp
    dsimp only
    rw [Mapping.overwrite_slice _ _ _ _ _ _ hin hnew, hraw]

theorem mapped_addLoadSegment {f g : ElfFile true E} {call : LoadSegment} (h : f.load call = some g)
    (hf : f.Mappable)
    : g.mapped = f.mapped.append call.vaddr.toNat call.data := by
  have hsize := size_load f g call h
  have hoffset := toNat_p_offset_nextPhdr f call
  have hfilesz := toNat_p_filesz_nextPhdr h
  have hvaddr : (f.nextPhdr call).p_vaddr = call.vaddr := by
    apply Phdr.p_vaddr_load
    exact BitVec.isLt _
  have htype : (f.nextPhdr call).p_type = PT_LOAD := Phdr.p_type_load _ _ _ _ _
  have ⟨raw, happend, hg⟩ := (addLoadSegment_eq_some_iff f g call).mp h
  rw [Bytes.append_eq_some_iff] at happend
  subst hg
  unfold mapped MappedFile.append
  dsimp only at *
  rw [hsize, List.filter_append, List.map_append, List.filter_cons_of_pos (by simpa using htype),
    List.filter_nil, List.map_singleton]
  congr 1
  congr 1
  . apply List.map_congr_left
    intro ph hph
    rw [List.mem_filter, decide_eq_true_eq] at hph
    have ⟨hin, _⟩ := hf ph hph.left hph.right
    unfold mapping
    rw [happend, slice_append_left _ _ _ _ hin]
  . unfold mapping
    rw [happend, hoffset, hfilesz, hvaddr]
    congr 2
    apply slice_append_right
    rfl

theorem mapped_edit {f g : ElfFile true E} {mutation : Mutation} (h : f.edit mutation = some g)
    (hf : f.Mappable)
    : g.mapped = stepMapped f.mapped mutation := by
  cases mutation with
  | setEntry addr =>
    rw [← Option.some.inj h]
    rfl
  | patchBytesAt offset newBytes => apply mapped_patchBytesAt h hf
  | addLoadSegment call => apply mapped_addLoadSegment h hf

end Step

/--
The run lemma of the simulation.
-/
theorem mapped_edits {f g : ElfFile true E} {mutations : List Mutation} (h : f.edits mutations = some g)
    (hf : f.Mappable) (hfits : ∀ mutation ∈ mutations, mutation.Fits)
    : g.Mappable ∧ g.mapped = mutations.foldl stepMapped f.mapped := by
  induction mutations generalizing f with
  | nil =>
    rw [← Option.some.inj h]
    exact ⟨hf, rfl⟩
  | cons mutation mutations ih =>
    rw [edits_cons_eq_some_iff] at h
    have ⟨f', hstep, hrest⟩ := h
    have hf' := mappable_edit hstep hf (hfits mutation (by simp))
    rw [List.foldl_cons, ← mapped_edit hstep hf]
    apply ih hrest hf'
    intro mutation' hmem
    apply hfits
    simp [hmem]

/--
In any run of the mutators the addresses of the file read as those of the mapped file, to which each call
appends or which it overwrites.
-/
theorem byteAt_edits (f g : ElfFile true E) (mutations : List Mutation) (h : f.edits mutations = some g)
    (hf : f.Mappable) (hfits : ∀ mutation ∈ mutations, mutation.Fits) (vaddr : BitVec 64)
    : g.byteAt vaddr = (mutations.foldl stepMapped f.mapped).image vaddr.toNat := by
  have ⟨hg, hmapped⟩ := mapped_edits h hf hfits
  rw [byteAt_eq_mapped hg, hmapped]

theorem byteAt_edits_wholeSample
    : ∃ g, (fileOf true .Big wholeSample).edits
        [.addLoadSegment fourBytes, .patchBytesAt 0x79 [0x4E, 0x80], .addLoadSegment fourBytes] = some g
        ∧ ∀ vaddr, g.byteAt vaddr
          = ([.addLoadSegment fourBytes, .patchBytesAt 0x79 [0x4E, 0x80], .addLoadSegment fourBytes].foldl
              stepMapped (fileOf true .Big wholeSample).mapped).image vaddr.toNat := by
  have ⟨g, hrun⟩ := Option.isSome_iff_exists.mp isSome_edits_wholeSample
  refine ⟨g, hrun, ?_⟩
  intro vaddr
  apply byteAt_edits _ g _ hrun
  . decide +kernel
  . decide +kernel

end ElfFile

end Elf
end ElfCraft
