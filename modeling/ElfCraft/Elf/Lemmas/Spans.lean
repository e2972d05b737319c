import ElfCraft.Binary.Ranges
import ElfCraft.Elf.Lemmas.Append
import ElfCraft.Elf.Lemmas.Translate

/-!
This module contains the reads behind a single lookup: the bytes of the file from the offset on are the
ones of the loaded image exactly as far as the segment of the first address goes and nothing else is
loaded over it.
-/

namespace ElfCraft
namespace Elf

open Binary

variable {is64 : Bool} {E : Endian}

namespace Phdr

-- The addresses that are in use once the segment is loaded.
def Maps (ph : Phdr is64 E) (a : Nat) : Prop :=
  ph.p_type = PT_LOAD ∧ ph.p_vaddr.toNat ≤ a
    ∧ a < ph.p_vaddr.toNat + max ph.p_filesz.toNat ph.p_memsz.toNat

instance (ph : Phdr is64 E) (a : Nat) : Decidable (ph.Maps a) := by
  unfold Maps
  infer_instance

theorem maps_of_contains {ph : Phdr is64 E} {a : Nat} (h : ph.Contains a) : ph.Maps a := by
  have ⟨htype, hle, hlt⟩ := h
  unfold fileEnd at hlt
  refine ⟨htype, hle, ?_⟩
  omega

theorem contains_add {ph : Phdr is64 E} {a len : Nat} (h : ph.Contains a) (hend : a + len ≤ ph.fileEnd)
    {k : Nat} (hk : k < len)
    : ph.Contains (a + k) ∧ ph.place (a + k) = ph.place a + k := by
  have ⟨htype, hle, hlt⟩ := h
  unfold Contains place
  refine ⟨⟨htype, ?_, ?_⟩, ?_⟩
  . omega
  . omega
  . omega

end Phdr

namespace ElfFile

-- What the segment puts at one of its addresses, behind the bytes of the file there are zeros.
def loadedByte (f : ElfFile is64 E) (ph : Phdr is64 E) (a : Nat) : Option Byte :=
  if ph.Contains a then f.raw.toList[ph.place a]? else some 0

/--
The byte is at the address of the loaded image, in whatever order the segments are loaded.
-/
structure Holds (f : ElfFile is64 E) (a : Nat) (b : Byte) : Prop where
  mapped : ∃ ph ∈ f.segments, ph.Maps a
  loaded : ∀ ph ∈ f.segments, ph.Maps a → f.loadedByte ph a = some b

/--
The segment has `len` bytes left from the address on, its offset does not wrap around and no other segment
puts another byte there.
-/
structure Unbroken (f : ElfFile is64 E) (first : Phdr is64 E) (a len : Nat) : Prop where
  left : a + len ≤ first.fileEnd
  placed : first.place a < 2 ^ 64
  alike : ∀ k < len, ∀ ph ∈ f.segments, ph.Maps (a + k) →
    f.loadedByte ph (a + k) = f.loadedByte first (a + k)

section Lookup

variable {f : ElfFile is64 E} {vaddr offset : BitVec 64} {first : Phdr is64 E} {len : Nat}
variable (hlookup : f.vaddrToFileOffset vaddr = .ok offset)
variable (hfirst : f.firstMatch vaddr.toNat = some first)
include hlookup hfirst

theorem toNat_offset : offset.toNat = first.place vaddr.toNat % 2 ^ 64 := by
  rw [vaddrToFileOffset_eq_ok_iff_place] at hlookup
  have ⟨first', hfirst', hoffset, _⟩ := hlookup
  rw [hfirst, Option.some.injEq] at hfirst'
  rw [hfirst']
  exact hoffset

theorem Unbroken.holds (h : f.Unbroken first vaddr.toNat len) {k : Nat} {b : Byte}
    (hb : (slice f.raw.toList offset.toNat len)[k]? = some b)
    : f.Holds (vaddr.toNat + k) b := by
  have ⟨hmem, hcontains, _⟩ := firstMatch_spec f _ first hfirst
  have hoffset := toNat_offset hlookup hfirst
  rw [Nat.mod_eq_of_lt h.placed] at hoffset
  rw [getElem?_slice] at hb
  have hk : k < len := by
    apply Decidable.by_contra
    intro hge
    rw [if_neg hge] at hb
    contradiction
  have ⟨hin, hplace⟩ := Phdr.contains_add hcontains h.left hk
  constructor
  . exact ⟨first, hmem, Phdr.maps_of_contains hin⟩
  . intro ph hph hmaps
    rw [h.alike k hk ph hph hmaps]
    unfold loadedByte
    rw [if_pos hin, hplace, ← hoffset, ← hb, if_pos hk]

/--
What is read behind a lookup is in the segment that it found and in the image exactly when the segment is
`Unbroken` from there on.
-/
theorem holds_iff_unbroken (hfits : offset.toNat + len ≤ f.raw.size) (hlen : 0 < len)
    : ((∀ k < len, first.Contains (vaddr.toNat + k))
          ∧ ∀ k b, (slice f.raw.toList offset.toNat len)[k]? = some b → f.Holds (vaddr.toNat + k) b)
        ↔
      f.Unbroken first vaddr.toNat len := by
  have ⟨hmem, hcontains, _⟩ := firstMatch_spec f _ first hfirst
  constructor
  . rintro ⟨hall, hholds⟩
    have hread (k : Nat) (hk : k < len)
        : ∃ b, f.Holds (vaddr.toNat + k) b ∧ f.loadedByte first (vaddr.toNat + k) = some b := by
      have hin : offset.toNat + k < f.raw.toList.length := by
        show _ < f.raw.size
        omega
      have hb : (slice f.raw.toList offset.toNat len)[k]? = some f.raw.toList[offset.toNat + k] := by
        rw [getElem?_slice, if_pos hk, List.getElem?_eq_getElem hin]
      have hk' := hholds k _ hb
      exact ⟨_, hk', hk'.loaded first hmem (Phdr.maps_of_contains (hall k hk))⟩
    constructor
    . have ⟨_, _, hlast⟩ := hall (len - 1) (by omega)
      omega
    . have ⟨b, _, hb⟩ := hread 0 hlen
      have hsize := f.raw.size_lt
      unfold loadedByte at hb
      rw [Nat.add_zero, if_pos hcontains] at hb
      have hplace : first.place vaddr.toNat < f.raw.size := (List.getElem?_eq_some_iff.mp hb).choose
      omega
    . intro k hk ph hph hmaps
      have ⟨b, hb, hfirstByte⟩ := hread k hk
      rw [hb.loaded ph hph hmaps, hfirstByte]
  . intro h
    constructor
    . intro k hk
      exact (Phdr.contains_add hcontains h.left hk).left
    . intro k b hb
      exact h.holds hlookup hfirst hb

end Lookup

/-
The parts of the file that an entry of the segment table does not describe.
-/

-- The ranges of the segments but the one that decides about the address, and of the two tables.
def otherRanges (f : ElfFile is64 E) (a : Nat) : List (Nat × Nat) :=
  (f.segments.eraseP fun ph => decide (ph.Contains a ∧ ph.fileEnd < 2 ^ 64)).map Phdr.range ++
    [(f.header.e_phoff.toNat, f.segments.length * (Phdr.codec is64 E).size),
      (f.header.e_shoff.toNat, f.sections.length * (Shdr.codec is64 E).size)]

/--
The byte of the file is one of the segment and of nothing else that the file describes.
-/
structure OwnByte (f : ElfFile is64 E) (first : Phdr is64 E) (a i : Nat) : Prop where
  own : InRange first.range i
  other : ∀ range ∈ f.otherRanges a, ¬ InRange range i

theorem ownBytes_iff {f : ElfFile is64 E} {first : Phdr is64 E} {a len : Nat} (hcontains : first.Contains a)
    (hend : a + len ≤ first.fileEnd) (hlen : 0 < len)
    : (∀ i, InRange (first.place a, len) i → f.OwnByte first a i)
        ↔
      ∀ range ∈ f.otherRanges a, Apart (first.place a) len range.1 range.2 := by
  constructor
  . intro hown range hrange
    rw [apart_iff _ _ range hlen]
    intro i hi
    exact (hown i hi).other range hrange
  . intro hapart i hi
    constructor
    . have ⟨_, hle, hlt⟩ := hcontains
      unfold Phdr.fileEnd Phdr.place Phdr.range InRange at *
      dsimp only at *
      omega
    . intro range hrange
      exact (apart_iff _ _ range hlen).mp (hapart range hrange) i hi

end ElfFile

end Elf
end ElfCraft
