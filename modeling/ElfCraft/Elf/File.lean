import ElfCraft.Binary.Bytes
import ElfCraft.Elf.Errors
import ElfCraft.Elf.Types

/-!
This module contains `ElfFile`: parsing, reading, mutating and serializing an ELF32 or ELF64 file of
a known byte order, and the dispatch over the four kinds of files.

A call that ends in a C++ exception (`std::length_error` of a vector that would outgrow its largest
size) or in undefined behavior (a `memcpy` outside of a buffer) is `none`.
-/

namespace ElfCraft
namespace Elf

open Binary

namespace detail

variable {α : Type}

def readStruct (c : Codec α) (bytes : Bytes) (offset : BitVec 64) : Result α :=
  if offset.toNat > bytes.size ∨ bytes.size - offset.toNat < c.size then
    .error <| .make .TruncatedFile <|
      "need " ++ toString c.size ++ " bytes at offset 0x" ++ hexDigits offset.toNat ++
        ", but file is only " ++ toString bytes.size ++ " bytes"
  else
    .ok (c.decode (slice bytes.toList offset.toNat c.size))

/--
The product is the wrapping one of `uint64_t`, the division in front guards it.
-/
def regionFits (bufferSize offset count elemSize : Nat) : Bool :=
  if count ≠ 0 ∧ elemSize > (2 ^ 64 - 1) / count then
    false
  else
    let span := (count * elemSize) % 2 ^ 64
    if offset > bufferSize then
      false
    else if span > bufferSize - offset then
      false
    else
      true

/--
The loops of `parse`: after `i` rounds the first `i` entries of the table at `offset` are read.
-/
def readTable (c : Codec α) (bytes : Bytes) (offset : BitVec 64) (i : Nat) : Result (List α) :=
  match i with
  | 0 => .ok []
  | i + 1 =>
    match readTable c bytes offset i with
    | .error e => .error e
    | .ok items =>
      match readStruct c bytes (offset + BitVec.ofNat 64 (i * c.size)) with
      | .error e => .error e
      | .ok item => .ok (items ++ [item])

end detail

open detail

/-
The structs of a class, `std::conditional_t` in the source, and the fields that the code uses of
them. The fields of a file of either class are read as `uint64_t` where their widths differ.
-/

def Ehdr (is64 : Bool) (E : Endian) : Type :=
  match is64 with
  | true => Elf64_Ehdr E
  | false => Elf32_Ehdr E

def Phdr (is64 : Bool) (E : Endian) : Type :=
  match is64 with
  | true => Elf64_Phdr E
  | false => Elf32_Phdr E

def Shdr (is64 : Bool) (E : Endian) : Type :=
  match is64 with
  | true => Elf64_Shdr E
  | false => Elf32_Shdr E

namespace Ehdr

variable {is64 : Bool} {E : Endian}

def codec (is64 : Bool) (E : Endian) : Codec (Ehdr is64 E) :=
  match is64 with
  | true => Elf64_Ehdr.codec E
  | false => Elf32_Ehdr.codec E

def e_ident (h : Ehdr is64 E) : Fin EI_NIDENT → Byte :=
  match is64, h with
  | true, h => Elf64_Ehdr.e_ident h
  | false, h => Elf32_Ehdr.e_ident h

def e_type (h : Ehdr is64 E) : BitVec 16 :=
  match is64, h with
  | true, h => (Elf64_Ehdr.e_type h).get
  | false, h => (Elf32_Ehdr.e_type h).get

def e_machine (h : Ehdr is64 E) : BitVec 16 :=
  match is64, h with
  | true, h => (Elf64_Ehdr.e_machine h).get
  | false, h => (Elf32_Ehdr.e_machine h).get

def e_entry (h : Ehdr is64 E) : BitVec 64 :=
  match is64, h with
  | true, h => (Elf64_Ehdr.e_entry h).get
  | false, h => (Elf32_Ehdr.e_entry h).get.setWidth 64

def e_phoff (h : Ehdr is64 E) : BitVec 64 :=
  match is64, h with
  | true, h => (Elf64_Ehdr.e_phoff h).get
  | false, h => (Elf32_Ehdr.e_phoff h).get.setWidth 64

def e_shoff (h : Ehdr is64 E) : BitVec 64 :=
  match is64, h with
  | true, h => (Elf64_Ehdr.e_shoff h).get
  | false, h => (Elf32_Ehdr.e_shoff h).get.setWidth 64

def e_flags (h : Ehdr is64 E) : BitVec 32 :=
  match is64, h with
  | true, h => (Elf64_Ehdr.e_flags h).get
  | false, h => (Elf32_Ehdr.e_flags h).get

def e_ehsize (h : Ehdr is64 E) : BitVec 16 :=
  match is64, h with
  | true, h => (Elf64_Ehdr.e_ehsize h).get
  | false, h => (Elf32_Ehdr.e_ehsize h).get

def e_phentsize (h : Ehdr is64 E) : BitVec 16 :=
  match is64, h with
  | true, h => (Elf64_Ehdr.e_phentsize h).get
  | false, h => (Elf32_Ehdr.e_phentsize h).get

def e_phnum (h : Ehdr is64 E) : BitVec 16 :=
  match is64, h with
  | true, h => (Elf64_Ehdr.e_phnum h).get
  | false, h => (Elf32_Ehdr.e_phnum h).get

def e_shentsize (h : Ehdr is64 E) : BitVec 16 :=
  match is64, h with
  | true, h => (Elf64_Ehdr.e_shentsize h).get
  | false, h => (Elf32_Ehdr.e_shentsize h).get

def e_shnum (h : Ehdr is64 E) : BitVec 16 :=
  match is64, h with
  | true, h => (Elf64_Ehdr.e_shnum h).get
  | false, h => (Elf32_Ehdr.e_shnum h).get

def e_shstrndx (h : Ehdr is64 E) : BitVec 16 :=
  match is64, h with
  | true, h => (Elf64_Ehdr.e_shstrndx h).get
  | false, h => (Elf32_Ehdr.e_shstrndx h).get

-- The assignments narrow to the width of the field.
def setEntry (h : Ehdr is64 E) (v : BitVec 64) : Ehdr is64 E :=
  match is64, h with
  | true, h => ({ h with e_entry := .set v } : Elf64_Ehdr E)
  | false, h => ({ h with e_entry := .set (v.setWidth 32) } : Elf32_Ehdr E)

def setPhoff (h : Ehdr is64 E) (v : BitVec 64) : Ehdr is64 E :=
  match is64, h with
  | true, h => ({ h with e_phoff := .set v } : Elf64_Ehdr E)
  | false, h => ({ h with e_phoff := .set (v.setWidth 32) } : Elf32_Ehdr E)

def setPhnum (h : Ehdr is64 E) (v : BitVec 16) : Ehdr is64 E :=
  match is64, h with
  | true, h => ({ h with e_phnum := .set v } : Elf64_Ehdr E)
  | false, h => ({ h with e_phnum := .set v } : Elf32_Ehdr E)

end Ehdr

namespace Phdr

variable {is64 : Bool} {E : Endian}

def codec (is64 : Bool) (E : Endian) : Codec (Phdr is64 E) :=
  match is64 with
  | true => Elf64_Phdr.codec E
  | false => Elf32_Phdr.codec E

def p_type (ph : Phdr is64 E) : BitVec 32 :=
  match is64, ph with
  | true, ph => (Elf64_Phdr.p_type ph).get
  | false, ph => (Elf32_Phdr.p_type ph).get

def p_flags (ph : Phdr is64 E) : BitVec 32 :=
  match is64, ph with
  | true, ph => (Elf64_Phdr.p_flags ph).get
  | false, ph => (Elf32_Phdr.p_flags ph).get

def p_offset (ph : Phdr is64 E) : BitVec 64 :=
  match is64, ph with
  | true, ph => (Elf64_Phdr.p_offset ph).get
  | false, ph => (Elf32_Phdr.p_offset ph).get.setWidth 64

def p_vaddr (ph : Phdr is64 E) : BitVec 64 :=
  match is64, ph with
  | true, ph => (Elf64_Phdr.p_vaddr ph).get
  | false, ph => (Elf32_Phdr.p_vaddr ph).get.setWidth 64

def p_paddr (ph : Phdr is64 E) : BitVec 64 :=
  match is64, ph with
  | true, ph => (Elf64_Phdr.p_paddr ph).get
  | false, ph => (Elf32_Phdr.p_paddr ph).get.setWidth 64

def p_filesz (ph : Phdr is64 E) : BitVec 64 :=
  match is64, ph with
  | true, ph => (Elf64_Phdr.p_filesz ph).get
  | false, ph => (Elf32_Phdr.p_filesz ph).get.setWidth 64

def p_memsz (ph : Phdr is64 E) : BitVec 64 :=
  match is64, ph with
  | true, ph => (Elf64_Phdr.p_memsz ph).get
  | false, ph => (Elf32_Phdr.p_memsz ph).get.setWidth 64

def p_align (ph : Phdr is64 E) : BitVec 64 :=
  match is64, ph with
  | true, ph => (Elf64_Phdr.p_align ph).get
  | false, ph => (Elf32_Phdr.p_align ph).get.setWidth 64

/--
The header that `addLoadSegment` fills in, its assignments narrow to the width of the field.
-/
def load (offset vaddr size align : BitVec 64) (flags : BitVec 32) : Phdr is64 E :=
  match is64 with
  | true =>
    ({ p_type := .set PT_LOAD, p_flags := .set flags, p_offset := .set offset
       p_vaddr := .set vaddr, p_paddr := .set vaddr, p_filesz := .set size, p_memsz := .set size
       p_align := .set align } : Elf64_Phdr E)
  | false =>
    ({ p_type := .set PT_LOAD, p_offset := .set (offset.setWidth 32)
       p_vaddr := .set (vaddr.setWidth 32), p_paddr := .set (vaddr.setWidth 32)
       p_filesz := .set (size.setWidth 32), p_memsz := .set (size.setWidth 32)
       p_flags := .set flags, p_align := .set (align.setWidth 32) } : Elf32_Phdr E)

end Phdr

def Shdr.codec (is64 : Bool) (E : Endian) : Codec (Shdr is64 E) :=
  match is64 with
  | true => Elf64_Shdr.codec E
  | false => Elf32_Shdr.codec E

structure ElfFile (is64 : Bool) (E : Endian) where
  header : Ehdr is64 E
  segments : List (Phdr is64 E)
  sections : List (Shdr is64 E)
  raw : Bytes

namespace ElfFile

variable {is64 : Bool} {E : Endian}

def expectedClass (is64 : Bool) : Byte := if is64 then ELFCLASS64 else ELFCLASS32

def expectedData (E : Endian) : Byte := if E = .Big then ELFDATA2MSB else ELFDATA2LSB

def parse (is64 : Bool) (E : Endian) (bytes : Bytes) : Result (ElfFile is64 E) :=
  match readStruct (Ehdr.codec is64 E) bytes 0 with
  | .error e => .error e
  | .ok header =>
    if header.e_ident 0 ≠ ELFMAG0 ∨ header.e_ident 1 ≠ ELFMAG1 ∨ header.e_ident 2 ≠ ELFMAG2
        ∨ header.e_ident 3 ≠ ELFMAG3 then
      .error (.make .BadMagic "missing 0x7F 'E' 'L' 'F' magic")
    else if header.e_ident 4 ≠ expectedClass is64 then
      .error (.make .UnsupportedClass
        "EI_CLASS byte does not match the requested ElfFile<Is64> instantiation")
    else if header.e_ident 5 ≠ expectedData E then
      .error (.make .UnsupportedDataEncoding
        "EI_DATA byte does not match the requested ElfFile<E> instantiation")
    else if header.e_ehsize.toNat ≠ (Ehdr.codec is64 E).size then
      .error (.make .InconsistentHeaderSize
        ("e_ehsize (" ++ toString header.e_ehsize.toNat ++ ") != sizeof(Ehdr) (" ++
          toString (Ehdr.codec is64 E).size ++ ")"))
    else if header.e_phnum > 0 ∧ header.e_phentsize.toNat ≠ (Phdr.codec is64 E).size then
      .error (.make .InconsistentHeaderSize "e_phentsize does not match sizeof(Phdr)")
    else if header.e_shnum > 0 ∧ header.e_shentsize.toNat ≠ (Shdr.codec is64 E).size then
      .error (.make .InconsistentHeaderSize "e_shentsize does not match sizeof(Shdr)")
    else if ¬ regionFits bytes.size header.e_phoff.toNat header.e_phnum.toNat
        (Phdr.codec is64 E).size then
      .error (.make .OffsetOutOfBounds "program header table falls outside the file")
    else if ¬ regionFits bytes.size header.e_shoff.toNat header.e_shnum.toNat
        (Shdr.codec is64 E).size then
      .error (.make .OffsetOutOfBounds "section header table falls outside the file")
    else
      match readTable (Phdr.codec is64 E) bytes header.e_phoff header.e_phnum.toNat with
      | .error e => .error e
      | .ok phdrs =>
        match readTable (Shdr.codec is64 E) bytes header.e_shoff header.e_shnum.toNat with
        | .error e => .error e
        | .ok shdrs =>
          if header.e_shnum > 0 ∧ header.e_shstrndx ≥ header.e_shnum then
            .error (.make .IndexOutOfBounds "e_shstrndx >= e_shnum")
          else
            .ok { header, segments := phdrs, sections := shdrs, raw := bytes }

def entry (f : ElfFile is64 E) : BitVec 64 := f.header.e_entry

def setEntry (f : ElfFile is64 E) (addr : BitVec 64) : ElfFile is64 E :=
  { f with header := f.header.setEntry addr }

def patchBytesAt (f : ElfFile is64 E) (offset : BitVec 64) (newBytes : List Byte)
    : Result (ElfFile is64 E) :=
  if regionFits f.raw.size offset.toNat newBytes.length 1 then
    match f.raw.write offset.toNat newBytes with
    | some raw => .ok { f with raw }
    | none => .ok f -- not reached, the region fits
  else
    .error (.make .OffsetOutOfBounds "patch region falls outside the current file")

/--
Append `data` to the file and its program header to the table, which moves to the new end.
-/
def addLoadSegment (f : ElfFile is64 E) (vaddr : BitVec 64) (data : List Byte) (flags : BitVec 32)
    (align : BitVec 64) : Option (ElfFile is64 E) :=
  match f.raw.append data with
  | none => none
  | some raw =>
    let newOffset := BitVec.ofNat 64 f.raw.size
    let ph := Phdr.load newOffset vaddr (BitVec.ofNat 64 data.length) align flags
    let phdrs := f.segments ++ [ph]
    let header := f.header.setPhnum (BitVec.ofNat 16 phdrs.length)
    let header := header.setPhoff (BitVec.ofNat 64 raw.size)
    some { f with header, segments := phdrs, raw }

def readAt (f : ElfFile is64 E) (offset length : BitVec 64) : Result (List Byte) :=
  if regionFits f.raw.size offset.toNat length.toNat 1 then
    .ok (slice f.raw.toList offset.toNat length.toNat)
  else
    .error <| .make .OffsetOutOfBounds <|
      "requested read of " ++ toString length.toNat ++ " bytes at offset 0x" ++
        hexDigits offset.toNat ++ " falls outside the file"

def vaddrToFileOffset (f : ElfFile is64 E) (vaddr : BitVec 64) : Result (BitVec 64) :=
  go f.segments
where
  go (phdrs : List (Phdr is64 E)) : Result (BitVec 64) :=
    match phdrs with
    | [] =>
      .error (.make .OffsetOutOfBounds
        "virtual address not found in any file-backed PT_LOAD segment")
    | ph :: phdrs =>
      if ph.p_type ≠ PT_LOAD then
        go phdrs
      else
        let vstart := ph.p_vaddr
        let vend := vstart + ph.p_filesz
        if vaddr ≥ vstart ∧ vaddr < vend then
          let delta := vaddr - vstart
          let offset := ph.p_offset + delta
          if offset.toNat > f.raw.size then
            .error (.make .OffsetOutOfBounds "computed file offset for vaddr exceeds file size")
          else
            .ok offset
        else
          go phdrs

def segmentData (f : ElfFile is64 E) (index : Nat) : Result (List Byte) :=
  match f.segments[index]? with
  | none => .error (.make .IndexOutOfBounds "segment index out of range")
  | some ph =>
    if regionFits f.raw.size ph.p_offset.toNat ph.p_filesz.toNat 1 then
      .ok (slice f.raw.toList ph.p_offset.toNat ph.p_filesz.toNat)
    else
      .error (.make .OffsetOutOfBounds "segment data falls outside the file")

section Write

variable {α : Type}

def ensureCapacity (buf : Bytes) (requiredSize : Nat) : Option Bytes :=
  if requiredSize > buf.size then
    buf.resize requiredSize
  else
    some buf

def writeStruct (c : Codec α) (buf : Bytes) (offset : BitVec 64) (value : α) : Option Bytes :=
  match ensureCapacity buf (offset + BitVec.ofNat 64 c.size).toNat with
  | none => none
  | some buf => buf.write offset.toNat (c.encode value)

def writeTable (c : Codec α) (buf : Bytes) (offset : BitVec 64) (items : List α) : Option Bytes :=
  go buf 0 items
where
  go (buf : Bytes) (i : Nat) (items : List α) : Option Bytes :=
    match items with
    | [] => some buf
    | item :: items =>
      match writeStruct c buf (offset + BitVec.ofNat 64 (i * c.size)) item with
      | none => none
      | some buf => go buf (i + 1) items

end Write

def serialize (f : ElfFile is64 E) : Option Bytes :=
  match writeStruct (Ehdr.codec is64 E) f.raw 0 f.header with
  | none => none
  | some out =>
    match writeTable (Phdr.codec is64 E) out f.header.e_phoff f.segments with
    | none => none
    | some out => writeTable (Shdr.codec is64 E) out f.header.e_shoff f.sections

end ElfFile

inductive AnyElfFile where
  | le32 (file : ElfFile false .Little)
  | be32 (file : ElfFile false .Big)
  | le64 (file : ElfFile true .Little)
  | be64 (file : ElfFile true .Big)

def AnyElfFile.serialize (file : AnyElfFile) : Option Bytes :=
  match file with
  | .le32 file => file.serialize
  | .be32 file => file.serialize
  | .le64 file => file.serialize
  | .be64 file => file.serialize

def parseAny (bytes : Bytes) : Result AnyElfFile :=
  if bytes.size < EI_NIDENT then
    .error (.make .TruncatedFile "file smaller than e_ident (16 bytes)")
  else
    let b := fun i => bytes.toList.getD i 0
    if b 0 ≠ ELFMAG0 ∨ b 1 ≠ ELFMAG1 ∨ b 2 ≠ ELFMAG2 ∨ b 3 ≠ ELFMAG3 then
      .error (.make .BadMagic "missing 0x7F 'E' 'L' 'F' magic")
    else
      let elfClass := b EI_CLASS
      let elfData := b EI_DATA
      if elfClass ≠ ELFCLASS32 ∧ elfClass ≠ ELFCLASS64 then
        .error (.make .UnsupportedClass "EI_CLASS is neither ELFCLASS32 nor ELFCLASS64")
      else if elfData ≠ ELFDATA2LSB ∧ elfData ≠ ELFDATA2MSB then
        .error (.make .UnsupportedDataEncoding "EI_DATA is neither ELFDATA2LSB nor ELFDATA2MSB")
      else if elfClass = ELFCLASS32 ∧ elfData = ELFDATA2LSB then
        (ElfFile.parse false .Little bytes).map .le32
      else if elfClass = ELFCLASS32 ∧ elfData = ELFDATA2MSB then
        (ElfFile.parse false .Big bytes).map .be32
      else if elfClass = ELFCLASS64 ∧ elfData = ELFDATA2LSB then
        (ElfFile.parse true .Little bytes).map .le64
      else
        (ElfFile.parse true .Big bytes).map .be64

end Elf
end ElfCraft
