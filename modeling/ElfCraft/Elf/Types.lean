import ElfCraft.Elf.Endian

/-!
This module contains the on disk structs of ELF32 and ELF64. Their fields are naturally aligned, so
the bytes of a struct are the bytes of its fields one after the other.
-/

namespace ElfCraft
namespace Elf

open Binary

abbrev EI_CLASS : Nat := 4
abbrev EI_DATA : Nat := 5
abbrev EI_NIDENT : Nat := 16

def ELFMAG0 : Byte := 0x7F
def ELFMAG1 : Byte := 0x45
def ELFMAG2 : Byte := 0x4C
def ELFMAG3 : Byte := 0x46

def ELFCLASS32 : Byte := 1
def ELFCLASS64 : Byte := 2

def ELFDATA2LSB : Byte := 1
def ELFDATA2MSB : Byte := 2

def EM_PPC64 : BitVec 16 := 21

def PT_NULL : BitVec 32 := 0
def PT_LOAD : BitVec 32 := 1
def PT_DYNAMIC : BitVec 32 := 2
def PT_INTERP : BitVec 32 := 3
def PT_NOTE : BitVec 32 := 4

def PF_X : BitVec 32 := 0x1
def PF_W : BitVec 32 := 0x2
def PF_R : BitVec 32 := 0x4

-- The machine the tool runs on is the one its host test is written for.
abbrev hostOrder : Endian := .Little

def u16 (E : Endian) : Codec (Endianed 16 E) := Endianed.codec hostOrder 2 E
def u32 (E : Endian) : Codec (Endianed 32 E) := Endianed.codec hostOrder 4 E
def u64 (E : Endian) : Codec (Endianed 64 E) := Endianed.codec hostOrder 8 E

structure Elf32_Ehdr (E : Endian) where
  e_ident : Fin EI_NIDENT → Byte
  e_type : Endianed 16 E
  e_machine : Endianed 16 E
  e_version : Endianed 32 E
  e_entry : Endianed 32 E
  e_phoff : Endianed 32 E
  e_shoff : Endianed 32 E
  e_flags : Endianed 32 E
  e_ehsize : Endianed 16 E
  e_phentsize : Endianed 16 E
  e_phnum : Endianed 16 E
  e_shentsize : Endianed 16 E
  e_shnum : Endianed 16 E
  e_shstrndx : Endianed 16 E

def Elf32_Ehdr.codec (E : Endian) : Codec (Elf32_Ehdr E) :=
  Codec.map ((Codec.bytes EI_NIDENT).prod <| (u16 E).prod <| (u16 E).prod <| (u32 E).prod <|
      (u32 E).prod <| (u32 E).prod <| (u32 E).prod <| (u32 E).prod <| (u16 E).prod <|
      (u16 E).prod <| (u16 E).prod <| (u16 E).prod <| (u16 E).prod <| u16 E)
    { toFun := fun (e_ident, e_type, e_machine, e_version, e_entry, e_phoff, e_shoff, e_flags,
        e_ehsize, e_phentsize, e_phnum, e_shentsize, e_shnum, e_shstrndx) =>
        { e_ident, e_type, e_machine, e_version, e_entry, e_phoff, e_shoff, e_flags, e_ehsize,
          e_phentsize, e_phnum, e_shentsize, e_shnum, e_shstrndx }
      invFun := fun h => (h.e_ident, h.e_type, h.e_machine, h.e_version, h.e_entry, h.e_phoff,
        h.e_shoff, h.e_flags, h.e_ehsize, h.e_phentsize, h.e_phnum, h.e_shentsize, h.e_shnum,
        h.e_shstrndx)
      left_inv := fun _ => rfl
      right_inv := fun _ => rfl }

structure Elf32_Phdr (E : Endian) where
  p_type : Endianed 32 E
  p_offset : Endianed 32 E
  p_vaddr : Endianed 32 E
  p_paddr : Endianed 32 E
  p_filesz : Endianed 32 E
  p_memsz : Endianed 32 E
  p_flags : Endianed 32 E
  p_align : Endianed 32 E

def Elf32_Phdr.codec (E : Endian) : Codec (Elf32_Phdr E) :=
  Codec.map ((u32 E).prod <| (u32 E).prod <| (u32 E).prod <| (u32 E).prod <| (u32 E).prod <|
      (u32 E).prod <| (u32 E).prod <| u32 E)
    { toFun := fun (p_type, p_offset, p_vaddr, p_paddr, p_filesz, p_memsz, p_flags, p_align) =>
        { p_type, p_offset, p_vaddr, p_paddr, p_filesz, p_memsz, p_flags, p_align }
      invFun := fun h => (h.p_type, h.p_offset, h.p_vaddr, h.p_paddr, h.p_filesz, h.p_memsz,
        h.p_flags, h.p_align)
      left_inv := fun _ => rfl
      right_inv := fun _ => rfl }

structure Elf32_Shdr (E : Endian) where
  sh_name : Endianed 32 E
  sh_type : Endianed 32 E
  sh_flags : Endianed 32 E
  sh_addr : Endianed 32 E
  sh_offset : Endianed 32 E
  sh_size : Endianed 32 E
  sh_link : Endianed 32 E
  sh_info : Endianed 32 E
  sh_addralign : Endianed 32 E
  sh_entsize : Endianed 32 E

def Elf32_Shdr.codec (E : Endian) : Codec (Elf32_Shdr E) :=
  Codec.map ((u32 E).prod <| (u32 E).prod <| (u32 E).prod <| (u32 E).prod <| (u32 E).prod <|
      (u32 E).prod <| (u32 E).prod <| (u32 E).prod <| (u32 E).prod <| u32 E)
    { toFun := fun (sh_name, sh_type, sh_flags, sh_addr, sh_offset, sh_size, sh_link, sh_info,
        sh_addralign, sh_entsize) =>
        { sh_name, sh_type, sh_flags, sh_addr, sh_offset, sh_size, sh_link, sh_info,
          sh_addralign, sh_entsize }
      invFun := fun h => (h.sh_name, h.sh_type, h.sh_flags, h.sh_addr, h.sh_offset, h.sh_size,
        h.sh_link, h.sh_info, h.sh_addralign, h.sh_entsize)
      left_inv := fun _ => rfl
      right_inv := fun _ => rfl }

structure Elf64_Ehdr (E : Endian) where
  e_ident : Fin EI_NIDENT → Byte
  e_type : Endianed 16 E
  e_machine : Endianed 16 E
  e_version : Endianed 32 E
  e_entry : Endianed 64 E
  e_phoff : Endianed 64 E
  e_shoff : Endianed 64 E
  e_flags : Endianed 32 E
  e_ehsize : Endianed 16 E
  e_phentsize : Endianed 16 E
  e_phnum : Endianed 16 E
  e_shentsize : Endianed 16 E
  e_shnum : Endianed 16 E
  e_shstrndx : Endianed 16 E

def Elf64_Ehdr.codec (E : Endian) : Codec (Elf64_Ehdr E) :=
  Codec.map ((Codec.bytes EI_NIDENT).prod <| (u16 E).prod <| (u16 E).prod <| (u32 E).prod <|
      (u64 E).prod <| (u64 E).prod <| (u64 E).prod <| (u32 E).prod <| (u16 E).prod <|
      (u16 E).prod <| (u16 E).prod <| (u16 E).prod <| (u16 E).prod <| u16 E)
    { toFun := fun (e_ident, e_type, e_machine, e_version, e_entry, e_phoff, e_shoff, e_flags,
        e_ehsize, e_phentsize, e_phnum, e_shentsize, e_shnum, e_shstrndx) =>
        { e_ident, e_type, e_machine, e_version, e_entry, e_phoff, e_shoff, e_flags, e_ehsize,
          e_phentsize, e_phnum, e_shentsize, e_shnum, e_shstrndx }
      invFun := fun h => (h.e_ident, h.e_type, h.e_machine, h.e_version, h.e_entry, h.e_phoff,
        h.e_shoff, h.e_flags, h.e_ehsize, h.e_phentsize, h.e_phnum, h.e_shentsize, h.e_shnum,
        h.e_shstrndx)
      left_inv := fun _ => rfl
      right_inv := fun _ => rfl }

structure Elf64_Phdr (E : Endian) where
  p_type : Endianed 32 E
  p_flags : Endianed 32 E
  p_offset : Endianed 64 E
  p_vaddr : Endianed 64 E
  p_paddr : Endianed 64 E
  p_filesz : Endianed 64 E
  p_memsz : Endianed 64 E
  p_align : Endianed 64 E

def Elf64_Phdr.codec (E : Endian) : Codec (Elf64_Phdr E) :=
  Codec.map ((u32 E).prod <| (u32 E).prod <| (u64 E).prod <| (u64 E).prod <| (u64 E).prod <|
      (u64 E).prod <| (u64 E).prod <| u64 E)
    { toFun := fun (p_type, p_flags, p_offset, p_vaddr, p_paddr, p_filesz, p_memsz, p_align) =>
        { p_type, p_flags, p_offset, p_vaddr, p_paddr, p_filesz, p_memsz, p_align }
      invFun := fun h => (h.p_type, h.p_flags, h.p_offset, h.p_vaddr, h.p_paddr, h.p_filesz,
        h.p_memsz, h.p_align)
      left_inv := fun _ => rfl
      right_inv := fun _ => rfl }

structure Elf64_Shdr (E : Endian) where
  sh_name : Endianed 32 E
  sh_type : Endianed 32 E
  sh_flags : Endianed 64 E
  sh_addr : Endianed 64 E
  sh_offset : Endianed 64 E
  sh_size : Endianed 64 E
  sh_link : Endianed 32 E
  sh_info : Endianed 32 E
  sh_addralign : Endianed 64 E
  sh_entsize : Endianed 64 E

def Elf64_Shdr.codec (E : Endian) : Codec (Elf64_Shdr E) :=
  Codec.map ((u32 E).prod <| (u32 E).prod <| (u64 E).prod <| (u64 E).prod <| (u64 E).prod <|
      (u64 E).prod <| (u32 E).prod <| (u32 E).prod <| (u64 E).prod <| u64 E)
    { toFun := fun (sh_name, sh_type, sh_flags, sh_addr, sh_offset, sh_size, sh_link, sh_info,
        sh_addralign, sh_entsize) =>
        { sh_name, sh_type, sh_flags, sh_addr, sh_offset, sh_size, sh_link, sh_info,
          sh_addralign, sh_entsize }
      invFun := fun h => (h.sh_name, h.sh_type, h.sh_flags, h.sh_addr, h.sh_offset, h.sh_size,
        h.sh_link, h.sh_info, h.sh_addralign, h.sh_entsize)
      left_inv := fun _ => rfl
      right_inv := fun _ => rfl }

example (E : Endian) : (Elf32_Ehdr.codec E).size = 52 := rfl
example (E : Endian) : (Elf32_Phdr.codec E).size = 32 := rfl
example (E : Endian) : (Elf32_Shdr.codec E).size = 40 := rfl

example (E : Endian) : (Elf64_Ehdr.codec E).size = 64 := rfl
example (E : Endian) : (Elf64_Phdr.codec E).size = 56 := rfl
example (E : Endian) : (Elf64_Shdr.codec E).size = 64 := rfl

end Elf
end ElfCraft
