import ElfCraft.Elf.Lemmas.Header
import ElfCraft.Elf.Lemmas.Serialize

/-!
This module contains what becomes of a parsed file whose program header table moved to the end: which
bytes `serialize` writes for it and when parsing them gives the file back.
-/

namespace ElfCraft
namespace Elf

open Binary

namespace ElfFile

variable {is64 : Bool} {E : Endian}

theorem fields_fit (is64 : Bool) (E : Endian)
    : phoffPos is64 + phoffLen is64 ≤ phnumPos is64
        ∧ phnumPos is64 + 2 ≤ (Ehdr.codec is64 E).size := by
  cases is64
  . exact ⟨(by decide : 28 + 4 ≤ 44), (by decide : 44 + 2 ≤ 52)⟩
  . exact ⟨(by decide : 32 + 8 ≤ 56), (by decide : 56 + 2 ≤ 64)⟩

theorem getElem?_withHeader_of_ge (f : ElfFile is64 E) (i : Nat) (h : (Ehdr.codec is64 E).size ≤ i)
    : f.withHeader[i]? = f.raw.toList[i]? := by
  unfold withHeader
  rw [getElem?_splice_of_not_mem _ _ _ _ (Nat.zero_le _)]
  rw [Codec.length_encode]
  omega

theorem slice_withHeader (f : ElfFile is64 E)
    : slice f.withHeader 0 (Ehdr.codec is64 E).size = (Ehdr.codec is64 E).encode f.header := by
  have hlen := (Ehdr.codec is64 E).length_encode f.header
  unfold withHeader
  rw [← hlen, slice_splice_self _ _ _ (Nat.zero_le _)]

theorem getElem?_withHeader (f : ElfFile is64 E) (i : Nat) (h : i < (Ehdr.codec is64 E).size)
    : f.withHeader[i]? = ((Ehdr.codec is64 E).encode f.header)[i]? := by
  rw [← slice_withHeader, getElem?_slice, if_pos h, Nat.zero_add]

/--
The section header table stays behind the two header fields that appending a segment assigns.
-/
def SectionsClear (f : ElfFile is64 E) : Prop :=
  f.header.e_shnum = 0 ∨ phnumPos is64 + 2 ≤ f.header.e_shoff.toNat

/--
`f` was parsed from `bytes` and has its program header table at the end of its bytes since.
-/
structure Mutated (bytes : Bytes) (f : ElfFile is64 E) : Prop where
  wellFormed : WellFormed is64 E bytes
  header : f.header = (headerOf is64 E bytes).withTable (BitVec.ofNat 64 f.raw.size)
    (BitVec.ofNat 16 f.segments.length)
  sections : f.sections = (fileOf is64 E bytes).sections
  size : bytes.size ≤ f.raw.size
  width : f.raw.size < 2 ^ wordBits is64

namespace Mutated

variable {bytes : Bytes} {f : ElfFile is64 E} (m : Mutated bytes f)
include m

theorem e_phoff : f.header.e_phoff.toNat = f.raw.size := by
  have hsize := f.raw.size_lt
  have hval : (BitVec.ofNat 64 f.raw.size).toNat = f.raw.size := by
    rw [BitVec.toNat_ofNat, Nat.mod_eq_of_lt (by omega)]
  rw [m.header, Ehdr.e_phoff_withTable, hval]
  rw [hval]
  apply m.width

theorem e_phnum : f.header.e_phnum = BitVec.ofNat 16 f.segments.length := by
  rw [m.header, Ehdr.e_phnum_withTable]

theorem e_shoff : f.header.e_shoff = (headerOf is64 E bytes).e_shoff := by
  rw [m.header, Ehdr.e_shoff_withTable]

theorem e_shnum : f.header.e_shnum = (headerOf is64 E bytes).e_shnum := by
  rw [m.header, Ehdr.e_shnum_withTable]

theorem sections_length : f.sections.length = f.header.e_shnum.toNat := by
  rw [m.sections, m.e_shnum]
  apply Codec.length_decodeAll

theorem encode_sections
    : (Shdr.codec is64 E).encodeAll f.sections
        =
      slice bytes.toList f.header.e_shoff.toNat
        (f.header.e_shnum.toNat * (Shdr.codec is64 E).size) := by
  rw [m.sections, m.e_shoff, m.e_shnum]
  apply Codec.encodeAll_decodeAll
  apply length_slice
  apply m.wellFormed.shdrs_fit

theorem shdrs_fit
    : f.header.e_shoff.toNat + f.header.e_shnum.toNat * (Shdr.codec is64 E).size ≤ bytes.size := by
  rw [m.e_shoff, m.e_shnum]
  apply m.wellFormed.shdrs_fit

theorem sizeof_Ehdr_le : (Ehdr.codec is64 E).size ≤ f.raw.size := by
  have := m.wellFormed.size
  have := m.size
  omega

theorem length_withHeader : f.withHeader.length = f.raw.size := by
  have := m.sizeof_Ehdr_le
  rw [ElfFile.length_withHeader]
  omega

theorem length_withPhdrs
    : f.withPhdrs.length = f.raw.size + f.segments.length * (Phdr.codec is64 E).size := by
  have hoff := m.e_phoff
  rw [ElfFile.length_withPhdrs _ (by omega), m.length_withHeader, hoff]
  omega

theorem length_withShdrs
    : f.withShdrs.length = f.raw.size + f.segments.length * (Phdr.codec is64 E).size := by
  have hoff := m.e_phoff
  have hsh := m.shdrs_fit
  have hsize := m.size
  rw [ElfFile.length_withShdrs _ (by omega) (by omega), m.length_withPhdrs, m.sections_length]
  omega

theorem serialize_eq_some_iff (out : Bytes)
    : f.serialize = some out ↔ out.toList = f.withShdrs := by
  have hoff := m.e_phoff
  have hsh := m.shdrs_fit
  have hsize := m.size
  apply ElfFile.serialize_eq_some_iff
  . omega
  . omega

/-
The output byte by byte. The section header table is written last and shadows what is below it.
-/

theorem getElem?_sections (i : Nat) (h : f.header.e_shoff.toNat ≤ i)
    (h' : i < f.header.e_shoff.toNat + f.header.e_shnum.toNat * (Shdr.codec is64 E).size)
    : f.withShdrs[i]? = bytes.toList[i]? := by
  have hsh := m.shdrs_fit
  have hsize := m.size
  have hlen := m.length_withPhdrs
  unfold withShdrs
  rw [getElem?_splice_of_mem _ _ _ _ (by omega) h]
  . rw [m.encode_sections, getElem?_slice, if_pos (by omega)]
    congr 1
    omega
  . rw [Codec.length_encodeAll, m.sections_length]
    exact h'

theorem getElem?_not_sections (i : Nat) (h : i < f.header.e_shoff.toNat
      ∨ f.header.e_shoff.toNat + f.header.e_shnum.toNat * (Shdr.codec is64 E).size ≤ i)
    : f.withShdrs[i]? = f.withPhdrs[i]? := by
  have hsh := m.shdrs_fit
  have hsize := m.size
  have hlen := m.length_withPhdrs
  unfold withShdrs
  rw [getElem?_splice_of_not_mem _ _ _ _ (by omega)]
  rw [Codec.length_encodeAll, m.sections_length]
  exact h

theorem getElem?_withPhdrs_of_lt (i : Nat) (h : i < f.raw.size)
    : f.withPhdrs[i]? = f.withHeader[i]? := by
  have hoff := m.e_phoff
  have hlen := m.length_withHeader
  unfold withPhdrs
  rw [getElem?_splice_of_not_mem _ _ _ _ (by omega)]
  omega

theorem getElem?_encode_header (i : Nat) (h : i < (Ehdr.codec is64 E).size)
    (hoff : i < phoffPos is64 ∨ phoffPos is64 + phoffLen is64 ≤ i)
    (hnum : i < phnumPos is64 ∨ phnumPos is64 + 2 ≤ i)
    : ((Ehdr.codec is64 E).encode f.header)[i]? = bytes.toList[i]? := by
  have hfit := fields_fit is64 E
  have hsize := m.wellFormed.size
  have hslice := length_slice bytes.toList 0 (Ehdr.codec is64 E).size
    (by unfold Bytes.size at hsize; omega)
  have hnumLen := length_phnumBytes E (BitVec.ofNat 16 f.segments.length)
  have hoffLen := length_phoffBytes is64 E (BitVec.ofNat 64 f.raw.size)
  rw [m.header, Ehdr.encode_withTable, encode_headerOf bytes m.wellFormed]
  rw [getElem?_splice_of_not_mem, getElem?_splice_of_not_mem, getElem?_slice, if_pos h, Nat.zero_add]
  . omega
  . omega
  . rw [length_splice _ _ _ (by omega)]
    omega
  . omega

/--
Behind the parsed bytes nothing but the table is written.
-/
theorem slice_withShdrs (pos len : Nat) (h : bytes.size ≤ pos) (hlen : pos + len ≤ f.raw.size)
    : slice f.withShdrs pos len = slice f.raw.toList pos len := by
  have hsh := m.shdrs_fit
  have hsize := m.wellFormed.size
  apply slice_congr
  intro i h1 h2
  rw [m.getElem?_not_sections i (by omega), m.getElem?_withPhdrs_of_lt i (by omega)]
  rw [getElem?_withHeader_of_ge f i (by omega)]

theorem slice_segments
    : slice f.withShdrs f.raw.size (f.segments.length * (Phdr.codec is64 E).size)
        =
      (Phdr.codec is64 E).encodeAll f.segments := by
  have hsh := m.shdrs_fit
  have hoff := m.e_phoff
  have hsize := m.size
  have hlen := m.length_withPhdrs
  have hlen' := m.length_withHeader
  unfold withShdrs
  rw [slice_splice_of_disjoint _ _ _ _ _ (by omega)]
  . unfold withPhdrs
    rw [hoff, ← Codec.length_encodeAll, slice_splice_self _ _ _ (by omega)]
  . rw [Codec.length_encodeAll, m.sections_length]
    omega

theorem slice_sections
    : slice f.withShdrs f.header.e_shoff.toNat
        (f.header.e_shnum.toNat * (Shdr.codec is64 E).size)
        =
      (Shdr.codec is64 E).encodeAll f.sections := by
  have hsh := m.shdrs_fit
  have hsize := m.size
  have hlen := m.length_withPhdrs
  unfold withShdrs
  rw [← m.sections_length, ← Codec.length_encodeAll, slice_splice_self _ _ _ (by omega)]

theorem toNat_e_phnum (hnum : f.segments.length < 2 ^ 16)
    : f.header.e_phnum.toNat = f.segments.length := by
  rw [m.e_phnum, BitVec.toNat_ofNat, Nat.mod_eq_of_lt hnum]

theorem headerOf_out {out : Bytes} (hclear : f.SectionsClear) (hout : f.serialize = some out)
    : headerOf is64 E out = f.header := by
  have hfit := fields_fit is64 E
  have hsize := m.sizeof_Ehdr_le
  have hlist := (m.serialize_eq_some_iff out).mp hout
  have hslice : slice out.toList 0 (Ehdr.codec is64 E).size
      = (Ehdr.codec is64 E).encode f.header := by
    rw [← slice_withHeader, hlist]
    apply slice_congr
    intro i _ hi
    rw [Nat.zero_add] at hi
    by_cases hin : f.header.e_shoff.toNat ≤ i
        ∧ i < f.header.e_shoff.toNat + f.header.e_shnum.toNat * (Shdr.codec is64 E).size
    . -- the table shadows the header with the bytes that the header has there anyway
      have hbehind : phnumPos is64 + 2 ≤ i := by
        rcases hclear with hzero | hge
        . rw [hzero] at hin
          simp at hin
          omega
        . omega
      rw [m.getElem?_sections i hin.left hin.right, getElem?_withHeader f i hi]
      rw [m.getElem?_encode_header i hi (by omega) (by omega)]
    . rw [m.getElem?_not_sections i (by omega), m.getElem?_withPhdrs_of_lt i (by omega)]
  unfold headerOf
  rw [hslice, Codec.decode_encode]

end Mutated

/--
What it takes beyond that for the parser to read the same file back.
-/
structure Reparsable (bytes : Bytes) (f : ElfFile is64 E) : Prop extends Mutated bytes f where
  clear : f.SectionsClear
  count : f.segments.length < 2 ^ 16
  phentsize : 0 < f.segments.length → f.header.e_phentsize.toNat = (Phdr.codec is64 E).size

namespace Reparsable

variable {bytes out : Bytes} {f : ElfFile is64 E} (m : Reparsable bytes f)
variable (hout : f.serialize = some out)
include m hout

theorem wellFormed_out : WellFormed is64 E out := by
  have hheader := m.headerOf_out m.clear hout
  have hlist := (m.serialize_eq_some_iff out).mp hout
  have hlen : out.size = f.raw.size + f.segments.length * (Phdr.codec is64 E).size := by
    unfold Bytes.size
    rw [hlist, m.length_withShdrs]
    rfl
  have hsize := m.sizeof_Ehdr_le
  have hgrow := m.size
  have hsh := m.shdrs_fit
  have hnumNat := m.toNat_e_phnum m.count
  have hoff := m.e_phoff
  have hwf := m.wellFormed
  constructor
  . omega
  . rw [hheader, m.header]
    simp only [Ehdr.e_ident_withTable]
    apply hwf.magic
  . rw [hheader, m.header]
    simp only [Ehdr.e_ident_withTable]
    apply hwf.ident_class
  . rw [hheader, m.header]
    simp only [Ehdr.e_ident_withTable]
    apply hwf.ident_data
  . rw [hheader, m.header]
    simp only [Ehdr.e_ehsize_withTable]
    apply hwf.ehsize
  . rw [hheader]
    intro hpos
    apply m.phentsize
    rw [← hnumNat]
    simpa [BitVec.lt_def] using hpos
  . rw [hheader, m.header]
    simp only [Ehdr.e_shnum_withTable, Ehdr.e_shentsize_withTable]
    apply hwf.shentsize
  . rw [hheader, m.header]
    simp only [Ehdr.e_shnum_withTable, Ehdr.e_shstrndx_withTable]
    apply hwf.shstrndx
  . rw [hheader, hoff, hnumNat]
    omega
  . rw [hheader]
    omega

theorem fileOf_out : fileOf is64 E out = { f with raw := out } := by
  have hheader := m.headerOf_out m.clear hout
  have hlist := (m.serialize_eq_some_iff out).mp hout
  have hsegments : tableOf (Phdr.codec is64 E) out f.header.e_phoff.toNat f.header.e_phnum.toNat
      = f.segments := by
    unfold tableOf
    rw [hlist, m.e_phoff, m.toNat_e_phnum m.count, m.slice_segments]
    rw [← List.append_nil ((Phdr.codec is64 E).encodeAll f.segments), Codec.decodeAll_encodeAll]
  have hsections : tableOf (Shdr.codec is64 E) out f.header.e_shoff.toNat f.header.e_shnum.toNat
      = f.sections := by
    unfold tableOf
    rw [hlist, m.slice_sections, ← m.sections_length]
    rw [← List.append_nil ((Shdr.codec is64 E).encodeAll f.sections), Codec.decodeAll_encodeAll]
  unfold fileOf
  rw [hheader]
  dsimp only
  rw [hsegments, hsections]

/--
Parsing the output gives the file back, with the output as its bytes.
-/
theorem parse_out : parse is64 E out = .ok { f with raw := out } := by
  rw [parse_of_wellFormed out (m.wellFormed_out hout)]
  rw [m.fileOf_out hout]

end Reparsable

end ElfFile

end Elf
end ElfCraft
