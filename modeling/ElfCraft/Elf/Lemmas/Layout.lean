import ElfCraft.Binary.Layout
import ElfCraft.Elf.Lemmas.ByteOrder
import ElfCraft.Elf.Types

/-!
This module contains the positions of the fields of the on disk structs as the ABI has them, and the proof
that the structs put their fields there.
-/

namespace ElfCraft
namespace Elf

open Binary

/-
The structs as tables: offset and size of each field. `e_ident` is an array of bytes.
-/

def identSlots {α : Type} (get : α → Fin EI_NIDENT → Byte) (set : α → (Fin EI_NIDENT → Byte) → α)
    : List (Slot α) :=
  (List.finRange EI_NIDENT).map fun (i : Fin EI_NIDENT) =>
    ⟨i.val, 1, fun h => get h i, fun h v => set h (Function.update (get h) i v)⟩

def Elf32_Ehdr.slots (E : Endian) : List (Slot (Elf32_Ehdr E)) :=
  identSlots (fun h => h.e_ident) (fun h e_ident => { h with e_ident }) ++
    [⟨16, 2, fun h => h.e_type.get, fun h v => { h with e_type := .set v }⟩,
      ⟨18, 2, fun h => h.e_machine.get, fun h v => { h with e_machine := .set v }⟩,
      ⟨20, 4, fun h => h.e_version.get, fun h v => { h with e_version := .set v }⟩,
      ⟨24, 4, fun h => h.e_entry.get, fun h v => { h with e_entry := .set v }⟩,
      ⟨28, 4, fun h => h.e_phoff.get, fun h v => { h with e_phoff := .set v }⟩,
      ⟨32, 4, fun h => h.e_shoff.get, fun h v => { h with e_shoff := .set v }⟩,
      ⟨36, 4, fun h => h.e_flags.get, fun h v => { h with e_flags := .set v }⟩,
      ⟨40, 2, fun h => h.e_ehsize.get, fun h v => { h with e_ehsize := .set v }⟩,
      ⟨42, 2, fun h => h.e_phentsize.get, fun h v => { h with e_phentsize := .set v }⟩,
      ⟨44, 2, fun h => h.e_phnum.get, fun h v => { h with e_phnum := .set v }⟩,
      ⟨46, 2, fun h => h.e_shentsize.get, fun h v => { h with e_shentsize := .set v }⟩,
      ⟨48, 2, fun h => h.e_shnum.get, fun h v => { h with e_shnum := .set v }⟩,
      ⟨50, 2, fun h => h.e_shstrndx.get, fun h v => { h with e_shstrndx := .set v }⟩]

def Elf32_Phdr.slots (E : Endian) : List (Slot (Elf32_Phdr E)) :=
    [⟨0, 4, fun ph => ph.p_type.get, fun ph v => { ph with p_type := .set v }⟩,
      ⟨4, 4, fun ph => ph.p_offset.get, fun ph v => { ph with p_offset := .set v }⟩,
      ⟨8, 4, fun ph => ph.p_vaddr.get, fun ph v => { ph with p_vaddr := .set v }⟩,
      ⟨12, 4, fun ph => ph.p_paddr.get, fun ph v => { ph with p_paddr := .set v }⟩,
      ⟨16, 4, fun ph => ph.p_filesz.get, fun ph v => { ph with p_filesz := .set v }⟩,
      ⟨20, 4, fun ph => ph.p_memsz.get, fun ph v => { ph with p_memsz := .set v }⟩,
      ⟨24, 4, fun ph => ph.p_flags.get, fun ph v => { ph with p_flags := .set v }⟩,
      ⟨28, 4, fun ph => ph.p_align.get, fun ph v => { ph with p_align := .set v }⟩]

def Elf32_Shdr.slots (E : Endian) : List (Slot (Elf32_Shdr E)) :=
    [⟨0, 4, fun sh => sh.sh_name.get, fun sh v => { sh with sh_name := .set v }⟩,
      ⟨4, 4, fun sh => sh.sh_type.get, fun sh v => { sh with sh_type := .set v }⟩,
      ⟨8, 4, fun sh => sh.sh_flags.get, fun sh v => { sh with sh_flags := .set v }⟩,
      ⟨12, 4, fun sh => sh.sh_addr.get, fun sh v => { sh with sh_addr := .set v }⟩,
      ⟨16, 4, fun sh => sh.sh_offset.get, fun sh v => { sh with sh_offset := .set v }⟩,
      ⟨20, 4, fun sh => sh.sh_size.get, fun sh v => { sh with sh_size := .set v }⟩,
      ⟨24, 4, fun sh => sh.sh_link.get, fun sh v => { sh with sh_link := .set v }⟩,
      ⟨28, 4, fun sh => sh.sh_info.get, fun sh v => { sh with sh_info := .set v }⟩,
      ⟨32, 4, fun sh => sh.sh_addralign.get, fun sh v => { sh with sh_addralign := .set v }⟩,
      ⟨36, 4, fun sh => sh.sh_entsize.get, fun sh v => { sh with sh_entsize := .set v }⟩]

def Elf64_Ehdr.slots (E : Endian) : List (Slot (Elf64_Ehdr E)) :=
  identSlots (fun h => h.e_ident) (fun h e_ident => { h with e_ident }) ++
    [⟨16, 2, fun h => h.e_type.get, fun h v => { h with e_type := .set v }⟩,
      ⟨18, 2, fun h => h.e_machine.get, fun h v => { h with e_machine := .set v }⟩,
      ⟨20, 4, fun h => h.e_version.get, fun h v => { h with e_version := .set v }⟩,
      ⟨24, 8, fun h => h.e_entry.get, fun h v => { h with e_entry := .set v }⟩,
      ⟨32, 8, fun h => h.e_phoff.get, fun h v => { h with e_phoff := .set v }⟩,
      ⟨40, 8, fun h => h.e_shoff.get, fun h v => { h with e_shoff := .set v }⟩,
      ⟨48, 4, fun h => h.e_flags.get, fun h v => { h with e_flags := .set v }⟩,
      ⟨52, 2, fun h => h.e_ehsize.get, fun h v => { h with e_ehsize := .set v }⟩,
      ⟨54, 2, fun h => h.e_phentsize.get, fun h v => { h with e_phentsize := .set v }⟩,
      ⟨56, 2, fun h => h.e_phnum.get, fun h v => { h with e_phnum := .set v }⟩,
      ⟨58, 2, fun h => h.e_shentsize.get, fun h v => { h with e_shentsize := .set v }⟩,
      ⟨60, 2, fun h => h.e_shnum.get, fun h v => { h with e_shnum := .set v }⟩,
      ⟨62, 2, fun h => h.e_shstrndx.get, fun h v => { h with e_shstrndx := .set v }⟩]

def Elf64_Phdr.slots (E : Endian) : List (Slot (Elf64_Phdr E)) :=
    [⟨0, 4, fun ph => ph.p_type.get, fun ph v => { ph with p_type := .set v }⟩,
      ⟨4, 4, fun ph => ph.p_flags.get, fun ph v => { ph with p_flags := .set v }⟩,
      ⟨8, 8, fun ph => ph.p_offset.get, fun ph v => { ph with p_offset := .set v }⟩,
      ⟨16, 8, fun ph => ph.p_vaddr.get, fun ph v => { ph with p_vaddr := .set v }⟩,
      ⟨24, 8, fun ph => ph.p_paddr.get, fun ph v => { ph with p_paddr := .set v }⟩,
      ⟨32, 8, fun ph => ph.p_filesz.get, fun ph v => { ph with p_filesz := .set v }⟩,
      ⟨40, 8, fun ph => ph.p_memsz.get, fun ph v => { ph with p_memsz := .set v }⟩,
      ⟨48, 8, fun ph => ph.p_align.get, fun ph v => { ph with p_align := .set v }⟩]

def Elf64_Shdr.slots (E : Endian) : List (Slot (Elf64_Shdr E)) :=
    [⟨0, 4, fun sh => sh.sh_name.get, fun sh v => { sh with sh_name := .set v }⟩,
      ⟨4, 4, fun sh => sh.sh_type.get, fun sh v => { sh with sh_type := .set v }⟩,
      ⟨8, 8, fun sh => sh.sh_flags.get, fun sh v => { sh with sh_flags := .set v }⟩,
      ⟨16, 8, fun sh => sh.sh_addr.get, fun sh v => { sh with sh_addr := .set v }⟩,
      ⟨24, 8, fun sh => sh.sh_offset.get, fun sh v => { sh with sh_offset := .set v }⟩,
      ⟨32, 8, fun sh => sh.sh_size.get, fun sh v => { sh with sh_size := .set v }⟩,
      ⟨40, 4, fun sh => sh.sh_link.get, fun sh v => { sh with sh_link := .set v }⟩,
      ⟨44, 4, fun sh => sh.sh_info.get, fun sh v => { sh with sh_info := .set v }⟩,
      ⟨48, 8, fun sh => sh.sh_addralign.get, fun sh v => { sh with sh_addralign := .set v }⟩,
      ⟨56, 8, fun sh => sh.sh_entsize.get, fun sh v => { sh with sh_entsize := .set v }⟩]

section Fields

variable (E : Endian)

theorem length_word (n : Nat) : (E.word n).size = n := by
  rfl

def fieldSlot (n : Nat) [Swappable (8 * n)] : Slot (Endianed (8 * n) E) where
  offset := 0
  len := n
  get e := e.get
  set _ v := .set v

theorem layout_field (n : Nat) [Swappable (8 * n)]
    (hswap : ∀ (v : BitVec (8 * n)), toDigits n (Swappable.byteswap v).toNat = (toDigits n v.toNat).reverse)
    : Layout (Endianed.codec hostOrder n E) E.word [fieldSlot E n] := by
  constructor
  . exact ⟨rfl, Nat.zero_add n⟩
  . intro x hx
    rw [List.mem_singleton.mp hx]
    constructor
    . exact (Nat.zero_add n).le
    . intro bs hbs
      replace hbs : bs.length = n := hbs
      show ((Endianed.codec hostOrder n E).decode bs).get = (E.word n).decode (slice bs 0 n)
      rw [Endianed.get_decode hostOrder E n hswap bs hbs]
      unfold slice
      rw [List.drop_zero, List.take_of_length_le (by omega)]
      rfl
    . intro e (v : BitVec (8 * n))
      have hlen : ((E.word n).encode v).length = n := (E.word n).length_encode v
      have hlen' : ((Endianed.codec hostOrder n E).encode e).length = n := Codec.length_encode _ e
      show (Endianed.codec hostOrder n E).encode (.set v) = splice _ 0 ((E.word n).encode v)
      rw [Endianed.encode_set hostOrder E n hswap]
      unfold splice
      rw [List.take_zero, List.nil_append, hlen, Nat.zero_add, List.drop_of_length_le (by omega),
        List.append_nil]
      rfl

theorem layout_u16 : Layout (u16 E) E.word [fieldSlot E 2] := by
  apply layout_field
  apply byteswap16_reverses

theorem layout_u32 : Layout (u32 E) E.word [fieldSlot E 4] := by
  apply layout_field
  apply byteswap32_reverses

theorem layout_u64 : Layout (u64 E) E.word [fieldSlot E 8] := by
  apply layout_field
  apply byteswap64_reverses

theorem layout_ident : Layout (Codec.bytes EI_NIDENT) E.word ((List.finRange EI_NIDENT).map Slot.byte) := by
  have hdigit (b : Byte) : BitVec.ofNat 8 (ofDigits [b]) = b := by
    rw [ofDigits, ofDigits, Nat.mul_zero, Nat.add_zero, BitVec.ofNat_toNat, BitVec.setWidth_eq]
  have hdecode (b : Byte) : (E.word 1).decode [b] = b := by
    cases E with
    | Little => exact hdigit b
    | Big => exact hdigit b
  apply Layout.bytes
  . exact hdecode
  . intro b
    have hbytes := (E.word 1).encode_decode [b] rfl
    rw [hdecode] at hbytes
    exact hbytes

theorem Elf32_Ehdr.layout : Layout (Elf32_Ehdr.codec E) E.word (Elf32_Ehdr.slots E) := by
  have hword := length_word E
  have h := (layout_ident E).prod hword <| (layout_u16 E).prod hword <| (layout_u16 E).prod hword <|
    (layout_u32 E).prod hword <| (layout_u32 E).prod hword <| (layout_u32 E).prod hword <|
    (layout_u32 E).prod hword <| (layout_u32 E).prod hword <| (layout_u16 E).prod hword <|
    (layout_u16 E).prod hword <| (layout_u16 E).prod hword <| (layout_u16 E).prod hword <|
    (layout_u16 E).prod hword <| layout_u16 E
  apply h.map

theorem Elf32_Phdr.layout : Layout (Elf32_Phdr.codec E) E.word (Elf32_Phdr.slots E) := by
  have hword := length_word E
  have h := (layout_u32 E).prod hword <| (layout_u32 E).prod hword <| (layout_u32 E).prod hword <|
    (layout_u32 E).prod hword <| (layout_u32 E).prod hword <| (layout_u32 E).prod hword <|
    (layout_u32 E).prod hword <| layout_u32 E
  apply h.map

theorem Elf32_Shdr.layout : Layout (Elf32_Shdr.codec E) E.word (Elf32_Shdr.slots E) := by
  have hword := length_word E
  have h := (layout_u32 E).prod hword <| (layout_u32 E).prod hword <| (layout_u32 E).prod hword <|
    (layout_u32 E).prod hword <| (layout_u32 E).prod hword <| (layout_u32 E).prod hword <|
    (layout_u32 E).prod hword <| (layout_u32 E).prod hword <| (layout_u32 E).prod hword <| layout_u32 E
  apply h.map

theorem Elf64_Ehdr.layout : Layout (Elf64_Ehdr.codec E) E.word (Elf64_Ehdr.slots E) := by
  have hword := length_word E
  have h := (layout_ident E).prod hword <| (layout_u16 E).prod hword <| (layout_u16 E).prod hword <|
    (layout_u32 E).prod hword <| (layout_u64 E).prod hword <| (layout_u64 E).prod hword <|
    (layout_u64 E).prod hword <| (layout_u32 E).prod hword <| (layout_u16 E).prod hword <|
    (layout_u16 E).prod hword <| (layout_u16 E).prod hword <| (layout_u16 E).prod hword <|
    (layout_u16 E).prod hword <| layout_u16 E
  apply h.map

theorem Elf64_Phdr.layout : Layout (Elf64_Phdr.codec E) E.word (Elf64_Phdr.slots E) := by
  have hword := length_word E
  have h := (layout_u32 E).prod hword <| (layout_u32 E).prod hword <| (layout_u64 E).prod hword <|
    (layout_u64 E).prod hword <| (layout_u64 E).prod hword <| (layout_u64 E).prod hword <|
    (layout_u64 E).prod hword <| layout_u64 E
  apply h.map

theorem Elf64_Shdr.layout : Layout (Elf64_Shdr.codec E) E.word (Elf64_Shdr.slots E) := by
  have hword := length_word E
  have h := (layout_u32 E).prod hword <| (layout_u32 E).prod hword <| (layout_u64 E).prod hword <|
    (layout_u64 E).prod hword <| (layout_u64 E).prod hword <| (layout_u64 E).prod hword <|
    (layout_u32 E).prod hword <| (layout_u32 E).prod hword <| (layout_u64 E).prod hword <| layout_u64 E
  apply h.map

/--
Decoding and encoding are inverse, and the fields are the words of the table: they are read from their
own bytes in the declared order, an assignment changes those bytes and no others.
-/
structure StructLaws {α : Type} (c : Codec α) (slots : List (Slot α)) : Prop where
  decode_encode : ∀ a, c.decode (c.encode a) = a
  encode_decode : ∀ bs, bs.length = c.size → c.encode (c.decode bs) = bs
  layout : Layout c E.word slots

theorem structLaws_of_layout {α : Type} {c : Codec α} {slots : List (Slot α)} (h : Layout c E.word slots)
    : StructLaws E c slots where
  decode_encode := c.decode_encode
  encode_decode := c.encode_decode
  layout := h

/--
On a little endian host the six structs have the layout of the ABI in either byte order.
-/
theorem onDisk_structLaws
    : StructLaws E (Elf32_Ehdr.codec E) (Elf32_Ehdr.slots E)
        ∧ StructLaws E (Elf32_Phdr.codec E) (Elf32_Phdr.slots E)
        ∧ StructLaws E (Elf32_Shdr.codec E) (Elf32_Shdr.slots E)
        ∧ StructLaws E (Elf64_Ehdr.codec E) (Elf64_Ehdr.slots E)
        ∧ StructLaws E (Elf64_Phdr.codec E) (Elf64_Phdr.slots E)
        ∧ StructLaws E (Elf64_Shdr.codec E) (Elf64_Shdr.slots E) := by
  refine ⟨?_, ?_, ?_, ?_, ?_, ?_⟩
  . apply structLaws_of_layout E (Elf32_Ehdr.layout E)
  . apply structLaws_of_layout E (Elf32_Phdr.layout E)
  . apply structLaws_of_layout E (Elf32_Shdr.layout E)
  . apply structLaws_of_layout E (Elf64_Ehdr.layout E)
  . apply structLaws_of_layout E (Elf64_Phdr.layout E)
  . apply structLaws_of_layout E (Elf64_Shdr.layout E)

end Fields

end Elf
end ElfCraft
