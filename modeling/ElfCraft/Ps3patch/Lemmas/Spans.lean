import ElfCraft.Elf.Lemmas.Spans
import ElfCraft.Ps3patch.Lemmas.Patch
import ElfCraft.Ps3patch.Lemmas.Refuse

/-!
This module contains the ranges behind the two addresses that the tool looks up, the descriptor of the
entry point and the window at its code: when what is read there is what the loaded image has and when the
overwritten bytes belong to nothing else.
-/

namespace ElfCraft
namespace Ps3patch

open Binary Elf ElfFile Ppc detail

/--
The four bytes of the loaded image from the address on spell the number.
-/
def HoldsWord (file : Ps3ElfFile) (a v : Nat) : Prop :=
  ∃ bytes : List Byte, bytes.length = 4 ∧ bigEndian bytes = v
    ∧ ∀ j b, bytes[j]? = some b → file.Holds (a + j) b

theorem holdsWords_iff (file : Ps3ElfFile) (a : Nat) {bytes : List Byte} {words : List Instruction}
    (h : HasWords bytes words)
    : (∀ i w, words[i]? = some w → HoldsWord file (a + 4 * i) w.toNat)
        ↔
      ∀ k b, bytes[k]? = some b → file.Holds (a + k) b := by
  have hlen := h.1
  constructor
  . intro hwords k b hb
    have hk := (List.getElem?_eq_some_iff.mp hb).choose
    have hw := List.getElem?_eq_getElem (show k / 4 < words.length by omega)
    have ⟨bytes', hlen', hvalue, hholds⟩ := hwords _ _ hw
    have heq : bytes' = slice bytes (4 * (k / 4)) 4 := by
      apply eq_of_bigEndian
      . rw [length_slice _ _ _ (by omega), hlen']
      . rw [hvalue, h.2 _ _ hw]
    have hbyte := hholds (k % 4) b (by
      rw [heq, getElem?_slice, if_pos (by omega), Nat.div_add_mod, hb])
    rw [Nat.add_assoc, Nat.div_add_mod] at hbyte
    exact hbyte
  . intro hbytes i w hw
    have hi := (List.getElem?_eq_some_iff.mp hw).choose
    refine ⟨slice bytes (4 * i) 4, ?_, h.2 i w hw, ?_⟩
    . apply length_slice
      omega
    . intro j b hb
      rw [getElem?_slice] at hb
      split at hb
      . rw [Nat.add_assoc]
        exact hbytes _ b hb
      . contradiction

theorem readBigEndian32_eq (bytes : List Byte) (offset : Nat)
    : readBigEndian32 bytes offset
        =
      joinWord (bytes.getD (offset + 0) 0) (bytes.getD (offset + 1) 0) (bytes.getD (offset + 2) 0)
        (bytes.getD (offset + 3) 0) := by
  have hfold (b0 b1 b2 b3 : Byte)
      : (((((0#32 <<< 8 ||| b0.setWidth 32) <<< 8) ||| b1.setWidth 32) <<< 8) ||| b2.setWidth 32) <<< 8 |||
          b3.setWidth 32
            =
          joinWord b0 b1 b2 b3 := by
    unfold joinWord
    apply BitVec.eq_of_getLsbD_eq
    intro i hi
    simp only [BitVec.getLsbD_or, BitVec.getLsbD_shiftLeft, BitVec.getLsbD_setWidth, BitVec.getLsbD_zero]
    grind
  apply hfold

theorem hasWords_descriptor (bytes : List Byte) (h : bytes.length = 8)
    : HasWords bytes [readBigEndian32 bytes 0, readBigEndian32 bytes 4] := by
  have hread : readInstructions bytes 2 = [readBigEndian32 bytes 0, readBigEndian32 bytes 4] := by
    rw [readBigEndian32_eq, readBigEndian32_eq]
    rfl
  rw [← hread]
  apply hasWords_readInstructions
  exact h

/--
The descriptor is in the segment of its first byte and what was read is what the loaded image has there.
-/
structure DescriptorHeld (file : Ps3ElfFile) (first : Phdr true .Big) (entry : EntryDescriptor) : Prop where
  inside : ∀ k < 8, first.Contains (file.entry.toNat + k)
  code : HoldsWord file file.entry.toNat entry.codeAddress.toNat
  toc : HoldsWord file (file.entry.toNat + 4) entry.tocValue.toNat

/--
The window is in the segment of its first byte, the words that were read are the ones of the loaded image
and the bytes that are overwritten belong to the segment and to no other part of the file.
-/
structure WindowHeld (file : Ps3ElfFile) (first : Phdr true .Big) (entry : EntryDescriptor)
    (r : TrampolineResult) (offset : Nat) (originals : List Instruction) : Prop where
  inside : ∀ k < 4 * r.displacedInstructionCount, first.Contains (entry.codeAddress.toNat + k)
  words : ∀ i w, originals[i]? = some w → HoldsWord file (entry.codeAddress.toNat + 4 * i) w.toNat
  bytes : ∀ i, InRange (offset, r.entryPatchBytes.length) i →
    file.OwnByte first entry.codeAddress.toNat i

/--
The segment goes on behind the entry point for as long as the jump is, and its part of the file is apart
from the other ones.
-/
structure WindowOwned (file : Ps3ElfFile) (first : Phdr true .Big) (entry : EntryDescriptor)
    (T : BitVec 32) : Prop where
  unbroken : file.Unbroken first entry.codeAddress.toNat (4 * windowSize entry T)
  apart : ∀ range ∈ file.otherRanges entry.codeAddress.toNat,
    Apart (first.place entry.codeAddress.toNat) (4 * windowSize entry T) range.1 range.2

/--
What the builder has read at the window and put into the trampoline.
-/
structure WindowRead (file : Ps3ElfFile) (entry : EntryDescriptor) (T : BitVec 32) (r : TrampolineResult)
    (offset : BitVec 64) (originals resumed : List Instruction) : Prop where
  lookup : file.vaddrToFileOffset entry.codeAddress = .ok offset
  read : HasWords (slice file.raw.toList offset.toNat (4 * r.displacedInstructionCount)) originals
  relocated : relocateDisplacedInstructions originals (entry.codeAddress.setWidth 32)
    (T + 8 + BitVec.ofNat 32 (4 * 49)) = .ok resumed
  written : HasWords (slice r.blob (8 + 4 * 49) (4 * r.displacedInstructionCount)) resumed

theorem firstMatch_of_lookup {file : Ps3ElfFile} {vaddr offset : BitVec 64}
    (h : file.vaddrToFileOffset vaddr = .ok offset)
    : ∃ first, file.firstMatch vaddr.toNat = some first := by
  rw [vaddrToFileOffset_eq_ok_iff_place] at h
  have ⟨first, hfirst, _, _⟩ := h
  exact ⟨first, hfirst⟩

theorem descriptorHeld_iff {file : Ps3ElfFile} {entry : EntryDescriptor} {first : Phdr true .Big}
    (h : resolveEntryDescriptor file = .ok entry) (hfirst : file.firstMatch file.entry.toNat = some first)
    : DescriptorHeld file first entry ↔ file.Unbroken first file.entry.toNat 8 := by
  rw [resolveEntryDescriptor_eq_ok_iff] at h
  have ⟨_, offset, hlookup, hfits, hentry⟩ := h
  have hwords := hasWords_descriptor (slice file.raw.toList offset.toNat 8) (length_slice _ _ _ hfits)
  have hheld := holdsWords_iff file file.entry.toNat hwords
  have hvalue (v : BitVec 32) : (v.setWidth 64).toNat = v.toNat := by
    rw [BitVec.toNat_setWidth]
    have := v.isLt
    omega
  have hcode : entry.codeAddress.toNat = (readBigEndian32 (slice file.raw.toList offset.toNat 8) 0).toNat := by
    rw [hentry]
    apply hvalue
  have htoc : entry.tocValue.toNat = (readBigEndian32 (slice file.raw.toList offset.toNat 8) 4).toNat := by
    rw [hentry]
    apply hvalue
  rw [← holds_iff_unbroken hlookup hfirst hfits (by omega), ← hheld]
  constructor
  . intro held
    refine ⟨held.inside, ?_⟩
    intro i w hw
    match i, hw with
    | 0, hw =>
      have hcode' := held.code
      rw [hcode, Option.some.inj hw] at hcode'
      exact hcode'
    | 1, hw =>
      have htoc' := held.toc
      rw [htoc, Option.some.inj hw] at htoc'
      exact htoc'
  . rintro ⟨hinside, hall⟩
    constructor
    . exact hinside
    . rw [hcode]
      exact hall 0 _ rfl
    . rw [htoc]
      exact hall 1 _ rfl

section Window

variable {file : Ps3ElfFile} {entry : EntryDescriptor} {T : BitVec 32} {path : List Byte}
variable {r : TrampolineResult} {offset : BitVec 64} {originals resumed : List Instruction}
variable (b : Built file entry T path r offset originals resumed)
include b

theorem Built.windowRead : WindowRead file entry T r offset originals resumed := by
  have ⟨_, hslice⟩ := b.slice_blob_resumed
  constructor
  . exact b.offset
  . rw [b.count_eq]
    exact b.hasWords_originals
  . exact b.relocated
  . rw [b.length_resumed] at hslice
    rw [b.count_eq, Nat.mul_comm 4, Nat.mul_comm 4, hslice]
    apply hasWords_toBigEndianBytes

theorem Built.windowHeld_iff {first : Phdr true .Big}
    (hfirst : file.firstMatch entry.codeAddress.toNat = some first)
    : WindowHeld file first entry r offset.toNat originals ↔ WindowOwned file first entry T := by
  have ⟨_, hcontains, _⟩ := firstMatch_spec file _ first hfirst
  have hn := displaced_eq entry T
  have hfits := b.fits
  have hlen := b.length_entryPatchBytes
  have hoffset := toNat_offset b.offset hfirst
  have hunbroken := holds_iff_unbroken b.offset hfirst (by omega) (show 0 < 4 * displaced entry T by omega)
  rw [← holdsWords_iff file _ b.hasWords_originals] at hunbroken
  rw [Nat.mul_comm] at hlen
  constructor
  . rintro ⟨hinside, hwords, hbytes⟩
    rw [b.count_eq] at hinside
    have h := hunbroken.mp ⟨hinside, hwords⟩
    rw [hlen, hoffset, Nat.mod_eq_of_lt h.placed, ownBytes_iff hcontains h.left (by omega)] at hbytes
    rw [displaced_eq_windowSize] at h hbytes
    exact ⟨h, hbytes⟩
  . rintro ⟨h, hapart⟩
    rw [← displaced_eq_windowSize] at h hapart
    have ⟨hinside, hwords⟩ := hunbroken.mpr h
    constructor
    . rw [b.count_eq]
      exact hinside
    . exact hwords
    . rw [hlen, hoffset, Nat.mod_eq_of_lt h.placed, ownBytes_iff hcontains h.left (by omega)]
      exact hapart

end Window

/--
The descriptor is held exactly when its segment is unbroken for 8 bytes, the window exactly when the one of
the code is for the jump and the overwritten part of the file is apart from the other ones.
-/
theorem lookup_ranges_iff (file : Ps3ElfFile)
    : (∀ entry, resolveEntryDescriptor file = .ok entry →
        ∃ first, file.firstMatch file.entry.toNat = some first
          ∧ (DescriptorHeld file first entry ↔ file.Unbroken first file.entry.toNat 8))
        ∧
      ∀ entry T path r, buildTrampoline file entry T path = .ok r →
        ∃ first offset originals resumed, file.firstMatch entry.codeAddress.toNat = some first
          ∧ WindowRead file entry T r offset originals resumed
          ∧ (WindowHeld file first entry r offset.toNat originals ↔ WindowOwned file first entry T) := by
  constructor
  . intro entry h
    have ⟨_, offset, hlookup, _, _⟩ := (resolveEntryDescriptor_eq_ok_iff file entry).mp h
    have ⟨first, hfirst⟩ := firstMatch_of_lookup hlookup
    exact ⟨first, hfirst, descriptorHeld_iff h hfirst⟩
  . intro entry T path r h
    have ⟨offset, originals, resumed, b⟩ := built_of_buildTrampoline _ _ _ _ _ h
    have ⟨first, hfirst⟩ := firstMatch_of_lookup b.offset
    exact ⟨first, offset, originals, resumed, hfirst, b.windowRead, b.windowHeld_iff hfirst⟩

-- The executable with a shorter first segment.
def cutSample (filesz : Instruction) : Bytes :=
  (plainSample.write 96 (toBigEndianBytes [0, filesz])).getD plainSample

/--
The TOC pointer of the descriptor is behind the end of the segment, all but the first of the five
instructions that the long jump displaces are, and a window at the first program header overwrites it.
-/
theorem lookup_ranges_cutSample
    : (∃ entry first, resolveEntryDescriptor (fileOf true .Big (cutSample 0x7C)) = .ok entry
          ∧ (fileOf true .Big (cutSample 0x7C)).firstMatch 0x10078 = some first
          ∧ (fileOf true .Big (cutSample 0x7C)).entry.toNat = 0x10078
          ∧ ¬ first.Contains (0x10078 + 4))
        ∧
      (∃ r first, buildTrampoline (fileOf true .Big (cutSample 0x84)) ⟨0x10080, 0x30000, 0⟩ 0x10000000 [0x61]
            = .ok r
          ∧ (fileOf true .Big (cutSample 0x84)).firstMatch 0x10080 = some first
          ∧ r.displacedInstructionCount = 5
          ∧ ¬ first.Contains (0x10080 + 4))
        ∧
      ∃ r, buildTrampoline (fileOf true .Big plainSample) ⟨0x10040, 0x30000, 0⟩ 0x20000 [0x61] = .ok r
          ∧ (fileOf true .Big plainSample).vaddrToFileOffset 0x10040 = .ok 0x40
          ∧ r.entryPatchBytes.length = 4
          ∧ (fileOf true .Big plainSample).header.e_phoff = 0x40
          ∧ (fileOf true .Big plainSample).header.e_phnum = 1 := by
  refine ⟨?_, ?_, ?_⟩
  . have hok : (resolveEntryDescriptor (fileOf true .Big (cutSample 0x7C))).isOk = true := by
      decide +kernel
    have hfirst : ((fileOf true .Big (cutSample 0x7C)).firstMatch 0x10078).map
        (fun first => decide (first.Contains (0x10078 + 4))) = some false := by
      decide +kernel
    have ⟨entry, hentry⟩ := exists_ok_of_isOk hok
    have ⟨first, hfirst, hout⟩ := Option.map_eq_some_iff.mp hfirst
    refine ⟨entry, first, hentry, hfirst, ?_, of_decide_eq_false hout⟩
    decide +kernel
  . have hok : (buildTrampoline (fileOf true .Big (cutSample 0x84)) ⟨0x10080, 0x30000, 0⟩ 0x10000000
        [0x61]).isOk = true := by
      decide +kernel
    have hfirst : ((fileOf true .Big (cutSample 0x84)).firstMatch 0x10080).map
        (fun first => decide (first.Contains (0x10080 + 4))) = some false := by
      decide +kernel
    have ⟨r, hr⟩ := exists_ok_of_isOk hok
    have ⟨entryOffset, originals, resumed, b⟩ := built_of_buildTrampoline _ _ _ _ _ hr
    have ⟨first, hfirst, hout⟩ := Option.map_eq_some_iff.mp hfirst
    refine ⟨r, first, hr, hfirst, ?_, of_decide_eq_false hout⟩
    rw [b.count_eq]
    decide +kernel
  . have hok : (buildTrampoline (fileOf true .Big plainSample) ⟨0x10040, 0x30000, 0⟩ 0x20000
        [0x61]).isOk = true := by
      decide +kernel
    have ⟨r, hr⟩ := exists_ok_of_isOk hok
    have ⟨entryOffset, originals, resumed, b⟩ := built_of_buildTrampoline _ _ _ _ _ hr
    refine ⟨r, hr, ?_, ?_, ?_, ?_⟩
    . decide +kernel
    . rw [b.length_entryPatchBytes]
      decide +kernel
    . decide +kernel
    . decide +kernel

end Ps3patch
end ElfCraft
