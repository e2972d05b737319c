import ElfCraft.Elf.File
import ElfCraft.Elf.Lemmas.Layout

/-!
This module contains the two header fields that appending a segment assigns: where their bytes are and
that the assignments change nothing else.
-/

namespace ElfCraft
namespace Elf

open Binary

variable {is64 : Bool} {E : Endian}

/-
The widths of an address and the positions of the two fields in either class.
-/

def wordBits (is64 : Bool) : Nat := if is64 then 64 else 32

def phoffPos (is64 : Bool) : Nat := if is64 then 32 else 28
def phoffLen (is64 : Bool) : Nat := if is64 then 8 else 4
def phnumPos (is64 : Bool) : Nat := if is64 then 56 else 44

def phoffBytes (is64 : Bool) (E : Endian) (v : BitVec 64) : List Byte :=
  match is64 with
  | true => (u64 E).encode (.set v)
  | false => (u32 E).encode (.set (v.setWidth 32))

def phnumBytes (E : Endian) (v : BitVec 16) : List Byte := (u16 E).encode (.set v)

@[simp]
theorem length_phoffBytes (is64 : Bool) (E : Endian) (v : BitVec 64)
    : (phoffBytes is64 E v).length = phoffLen is64 := by
  cases is64
  . apply Codec.length_encode
  . apply Codec.length_encode

@[simp]
theorem length_phnumBytes (E : Endian) (v : BitVec 16) : (phnumBytes E v).length = 2 := by
  apply Codec.length_encode

theorem setWidth_setWidth_of_lt (is64 : Bool) (v : BitVec 64) (h : v.toNat < 2 ^ wordBits is64)
    (h32 : is64 = false)
    : (v.setWidth 32).setWidth 64 = v := by
  subst h32
  apply BitVec.eq_of_toNat_eq
  rw [BitVec.toNat_setWidth, BitVec.toNat_setWidth]
  unfold wordBits at h
  simp only [Bool.false_eq_true, ↓reduceIte] at h
  rw [Nat.mod_eq_of_lt h, Nat.mod_eq_of_lt v.isLt]

theorem get_set_narrow (v : BitVec 64) (h : v.toNat < 2 ^ wordBits false)
    : (Endianed.get (Endianed.set (v.setWidth 32) : Endianed 32 E)).setWidth 64 = v := by
  rw [Endianed.get_set]
  apply setWidth_setWidth_of_lt false v h rfl

theorem toNat_get_set_narrow_le (v : BitVec 64)
    : ((Endianed.get (Endianed.set (v.setWidth 32) : Endianed 32 E)).setWidth 64).toNat ≤ v.toNat := by
  rw [Endianed.get_set, BitVec.toNat_setWidth, BitVec.toNat_setWidth]
  omega

-- The fields hold the words of the layout.
theorem encode_set_u16 (v : BitVec 16) : (u16 E).encode (.set v) = (E.word 2).encode v := by
  apply Endianed.encode_set hostOrder E 2 byteswap16_reverses

theorem encode_set_u32 (v : BitVec 32) : (u32 E).encode (.set v) = (E.word 4).encode v := by
  apply Endianed.encode_set hostOrder E 4 byteswap32_reverses

theorem encode_set_u64 (v : BitVec 64) : (u64 E).encode (.set v) = (E.word 8).encode v := by
  apply Endianed.encode_set hostOrder E 8 byteswap64_reverses

namespace Ehdr

theorem encode_setPhoff (h : Ehdr is64 E) (v : BitVec 64)
    : (Ehdr.codec is64 E).encode (h.setPhoff v)
        =
      splice ((Ehdr.codec is64 E).encode h) (phoffPos is64) (phoffBytes is64 E v) := by
  cases is64 with
  | true =>
    have hslot := (Elf64_Ehdr.layout E).lawful _ (List.mem_of_getElem? (i := 20) rfl)
    have hset := hslot.encode_set h v
    rw [← encode_set_u64] at hset
    exact hset
  | false =>
    have hslot := (Elf32_Ehdr.layout E).lawful _ (List.mem_of_getElem? (i := 20) rfl)
    have hset := hslot.encode_set h (v.setWidth 32)
    rw [← encode_set_u32] at hset
    exact hset

theorem encode_setPhnum (h : Ehdr is64 E) (v : BitVec 16)
    : (Ehdr.codec is64 E).encode (h.setPhnum v)
        =
      splice ((Ehdr.codec is64 E).encode h) (phnumPos is64) (phnumBytes E v) := by
  cases is64 with
  | true =>
    have hslot := (Elf64_Ehdr.layout E).lawful _ (List.mem_of_getElem? (i := 25) rfl)
    have hset := hslot.encode_set h v
    rw [← encode_set_u16] at hset
    exact hset
  | false =>
    have hslot := (Elf32_Ehdr.layout E).lawful _ (List.mem_of_getElem? (i := 25) rfl)
    have hset := hslot.encode_set h v
    rw [← encode_set_u16] at hset
    exact hset

/-
What the assignments change for a reader of the header.
-/

section Fields

variable (h : Ehdr is64 E) (off : BitVec 64) (num : BitVec 16)

def withTable : Ehdr is64 E := (h.setPhnum num).setPhoff off

@[simp]
theorem e_ident_withTable : (h.withTable off num).e_ident = h.e_ident := by
  cases is64 <;> rfl

@[simp]
theorem e_entry_withTable : (h.withTable off num).e_entry = h.e_entry := by
  cases is64 <;> rfl

@[simp]
theorem e_type_withTable : (h.withTable off num).e_type = h.e_type := by
  cases is64 <;> rfl

@[simp]
theorem e_flags_withTable : (h.withTable off num).e_flags = h.e_flags := by
  cases is64 <;> rfl

@[simp]
theorem e_machine_withTable : (h.withTable off num).e_machine = h.e_machine := by
  cases is64 <;> rfl

@[simp]
theorem e_shoff_withTable : (h.withTable off num).e_shoff = h.e_shoff := by
  cases is64 <;> rfl

@[simp]
theorem e_ehsize_withTable : (h.withTable off num).e_ehsize = h.e_ehsize := by
  cases is64 <;> rfl

@[simp]
theorem e_phentsize_withTable : (h.withTable off num).e_phentsize = h.e_phentsize := by
  cases is64 <;> rfl

@[simp]
theorem e_shentsize_withTable : (h.withTable off num).e_shentsize = h.e_shentsize := by
  cases is64 <;> rfl

@[simp]
theorem e_shnum_withTable : (h.withTable off num).e_shnum = h.e_shnum := by
  cases is64 <;> rfl

@[simp]
theorem e_shstrndx_withTable : (h.withTable off num).e_shstrndx = h.e_shstrndx := by
  cases is64 <;> rfl

@[simp]
theorem e_phnum_withTable : (h.withTable off num).e_phnum = num := by
  cases is64
  . apply Endianed.get_set
  . apply Endianed.get_set

theorem e_phoff_withTable (hoff : off.toNat < 2 ^ wordBits is64)
    : (h.withTable off num).e_phoff = off := by
  cases is64
  . apply get_set_narrow off hoff
  . apply Endianed.get_set

@[simp]
theorem withTable_withTable (off' : BitVec 64) (num' : BitVec 16)
    : (h.withTable off num).withTable off' num' = h.withTable off' num' := by
  cases is64 <;> rfl

end Fields

theorem encode_withTable (h : Ehdr is64 E) (off : BitVec 64) (num : BitVec 16)
    : (Ehdr.codec is64 E).encode (h.withTable off num)
        =
      splice (splice ((Ehdr.codec is64 E).encode h) (phnumPos is64) (phnumBytes E num))
        (phoffPos is64) (phoffBytes is64 E off) := by
  unfold withTable
  rw [encode_setPhoff, encode_setPhnum]

end Ehdr

namespace Phdr

section Load

variable (offset vaddr size align : BitVec 64) (flags : BitVec 32)

@[simp]
theorem p_type_load : (load offset vaddr size align flags : Phdr is64 E).p_type = PT_LOAD := by
  cases is64
  . apply Endianed.get_set
  . apply Endianed.get_set

@[simp]
theorem p_flags_load : (load offset vaddr size align flags : Phdr is64 E).p_flags = flags := by
  cases is64
  . apply Endianed.get_set
  . apply Endianed.get_set

theorem p_offset_load (h : offset.toNat < 2 ^ wordBits is64)
    : (load offset vaddr size align flags : Phdr is64 E).p_offset = offset := by
  cases is64
  . apply get_set_narrow offset h
  . apply Endianed.get_set

theorem p_vaddr_load (h : vaddr.toNat < 2 ^ wordBits is64)
    : (load offset vaddr size align flags : Phdr is64 E).p_vaddr = vaddr := by
  cases is64
  . apply get_set_narrow vaddr h
  . apply Endianed.get_set

theorem p_paddr_load (h : vaddr.toNat < 2 ^ wordBits is64)
    : (load offset vaddr size align flags : Phdr is64 E).p_paddr = vaddr := by
  cases is64
  . apply get_set_narrow vaddr h
  . apply Endianed.get_set

theorem p_filesz_load (h : size.toNat < 2 ^ wordBits is64)
    : (load offset vaddr size align flags : Phdr is64 E).p_filesz = size := by
  cases is64
  . apply get_set_narrow size h
  . apply Endianed.get_set

theorem p_memsz_load (h : size.toNat < 2 ^ wordBits is64)
    : (load offset vaddr size align flags : Phdr is64 E).p_memsz = size := by
  cases is64
  . apply get_set_narrow size h
  . apply Endianed.get_set

-- The assignments never make a number larger.
theorem p_offset_load_le
    : (load offset vaddr size align flags : Phdr is64 E).p_offset.toNat ≤ offset.toNat := by
  cases is64
  . apply toNat_get_set_narrow_le
  . rw [p_offset_load _ _ _ _ _ (by exact offset.isLt)]

theorem p_filesz_load_le
    : (load offset vaddr size align flags : Phdr is64 E).p_filesz.toNat ≤ size.toNat := by
  cases is64
  . apply toNat_get_set_narrow_le
  . rw [p_filesz_load _ _ _ _ _ (by exact size.isLt)]

theorem p_align_load (h : align.toNat < 2 ^ wordBits is64)
    : (load offset vaddr size align flags : Phdr is64 E).p_align = align := by
  cases is64
  . apply get_set_narrow align h
  . apply Endianed.get_set

end Load

end Phdr

end Elf
end ElfCraft
