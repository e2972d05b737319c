import ElfCraft.Elf.Lemmas.Append

/-!
This module contains files whose header and tables do not overlap. What is written for such a file is the file
again, and every call keeps them apart.
-/

namespace ElfCraft
namespace Elf

open Binary

/--
The fields of a header that the parser checks.
-/
structure Ehdr.Valid {is64 : Bool} {E : Endian} (h : Ehdr is64 E) : Prop where
  magic : h.e_ident 0 = ELFMAG0 ∧ h.e_ident 1 = ELFMAG1 ∧ h.e_ident 2 = ELFMAG2 ∧ h.e_ident 3 = ELFMAG3
  ident_class : h.e_ident 4 = ElfFile.expectedClass is64
  ident_data : h.e_ident 5 = ElfFile.expectedData E
  ehsize : h.e_ehsize.toNat = (Ehdr.codec is64 E).size
  phentsize : 0 < h.e_phnum → h.e_phentsize.toNat = (Phdr.codec is64 E).size
  shentsize : 0 < h.e_shnum → h.e_shentsize.toNat = (Shdr.codec is64 E).size
  shstrndx : 0 < h.e_shnum → h.e_shstrndx < h.e_shnum

namespace ElfFile

variable {is64 : Bool} {E : Endian}

/--
The header and the two tables have places of their own. The program header table may reach beyond the end, its
place is only reserved until the file is written.
-/
structure Separate (f : ElfFile is64 E) : Prop where
  valid : Ehdr.Valid f.header
  phnum : f.header.e_phnum.toNat = f.segments.length
  shnum : f.header.e_shnum.toNat = f.sections.length
  size : (Ehdr.codec is64 E).size ≤ f.raw.size
  phoff : f.header.e_phoff.toNat ≤ f.raw.size
  shdrs_fit : f.header.e_shoff.toNat + f.sections.length * (Shdr.codec is64 E).size ≤ f.raw.size
  phdrs_behind : f.segments.length = 0 ∨ (Ehdr.codec is64 E).size ≤ f.header.e_phoff.toNat
  shdrs_behind : f.sections.length = 0 ∨ (Ehdr.codec is64 E).size ≤ f.header.e_shoff.toNat
  apart : f.segments.length = 0 ∨ f.sections.length = 0
    ∨ f.header.e_phoff.toNat + f.segments.length * (Phdr.codec is64 E).size ≤ f.header.e_shoff.toNat
    ∨ f.header.e_shoff.toNat + f.sections.length * (Shdr.codec is64 E).size ≤ f.header.e_phoff.toNat

namespace Separate

variable {f : ElfFile is64 E} (s : Separate f)
include s

theorem length_withHeader : f.withHeader.length = f.raw.size := by
  have := s.size
  rw [ElfFile.length_withHeader]
  omega

theorem length_withPhdrs
    : f.withPhdrs.length
        =
      max f.raw.size (f.header.e_phoff.toNat + f.segments.length * (Phdr.codec is64 E).size) := by
  rw [ElfFile.length_withPhdrs f s.phoff, s.length_withHeader]

theorem length_withShdrs : f.withShdrs.length = f.withPhdrs.length := by
  have hfit := s.shdrs_fit
  have hlen := s.length_withPhdrs
  rw [ElfFile.length_withShdrs f s.phoff (by omega)]
  omega

theorem serialize_eq_some_iff (out : Bytes) : f.serialize = some out ↔ out.toList = f.withShdrs := by
  have hfit := s.shdrs_fit
  apply ElfFile.serialize_eq_some_iff f out s.phoff (by omega)

theorem slice_header
    : slice f.withShdrs 0 (Ehdr.codec is64 E).size = (Ehdr.codec is64 E).encode f.header := by
  have hfit := s.shdrs_fit
  have hphoff := s.phoff
  have hlen := s.length_withPhdrs
  have hlen' := s.length_withHeader
  have hsections : ((Shdr.codec is64 E).encodeAll f.sections).length = _ := Codec.length_encodeAll _ _
  have hsegments : ((Phdr.codec is64 E).encodeAll f.segments).length = _ := Codec.length_encodeAll _ _
  rw [← slice_withHeader f]
  unfold withShdrs
  rw [slice_splice_of_apart _ _ _ _ _ (by omega)]
  . unfold withPhdrs
    rw [slice_splice_of_apart _ _ _ _ _ (by omega)]
    cases s.phdrs_behind with
    | inl h => left; rw [hsegments, h, Nat.zero_mul]
    | inr h => omega
  . cases s.shdrs_behind with
    | inl h => left; rw [hsections, h, Nat.zero_mul]
    | inr h => omega

theorem slice_segments
    : slice f.withShdrs f.header.e_phoff.toNat (f.segments.length * (Phdr.codec is64 E).size)
        =
      (Phdr.codec is64 E).encodeAll f.segments := by
  have hfit := s.shdrs_fit
  have hphoff := s.phoff
  have hlen := s.length_withPhdrs
  have hlen' := s.length_withHeader
  have hsections : ((Shdr.codec is64 E).encodeAll f.sections).length = _ := Codec.length_encodeAll _ _
  unfold withShdrs
  rw [slice_splice_of_apart _ _ _ _ _ (by omega)]
  . unfold withPhdrs
    rw [← Codec.length_encodeAll, slice_splice_self _ _ _ (by omega)]
  . rcases s.apart with h | h | h | h
    . right; left; rw [h, Nat.zero_mul]
    . left; rw [hsections, h, Nat.zero_mul]
    . omega
    . omega

theorem slice_sections
    : slice f.withShdrs f.header.e_shoff.toNat (f.sections.length * (Shdr.codec is64 E).size)
        =
      (Shdr.codec is64 E).encodeAll f.sections := by
  have hfit := s.shdrs_fit
  have hlen := s.length_withPhdrs
  unfold withShdrs
  rw [← Codec.length_encodeAll, slice_splice_self _ _ _ (by omega)]

theorem size_out {out : Bytes} (hout : f.serialize = some out)
    : out.size = max f.raw.size (f.header.e_phoff.toNat + f.segments.length * (Phdr.codec is64 E).size) := by
  rw [← s.length_withPhdrs, ← s.length_withShdrs, ← (s.serialize_eq_some_iff out).mp hout]
  rfl

/--
What `serialize` writes for the file is that file with other bytes.
-/
theorem fileOf_out {out : Bytes} (hout : f.serialize = some out)
    : WellFormed is64 E out ∧ fileOf is64 E out = { f with raw := out } := by
  have hlist := (s.serialize_eq_some_iff out).mp hout
  have hsize := s.size_out hout
  have hheader : headerOf is64 E out = f.header := by
    unfold headerOf
    rw [hlist, s.slice_header, Codec.decode_encode]
  have hsegments : tableOf (Phdr.codec is64 E) out f.header.e_phoff.toNat f.header.e_phnum.toNat
      = f.segments := by
    unfold tableOf
    rw [hlist, s.phnum, s.slice_segments]
    rw [← List.append_nil ((Phdr.codec is64 E).encodeAll f.segments), Codec.decodeAll_encodeAll]
  have hsections : tableOf (Shdr.codec is64 E) out f.header.e_shoff.toNat f.header.e_shnum.toNat
      = f.sections := by
    unfold tableOf
    rw [hlist, s.shnum, s.slice_sections]
    rw [← List.append_nil ((Shdr.codec is64 E).encodeAll f.sections), Codec.decodeAll_encodeAll]
  constructor
  . have hfit := s.shdrs_fit
    have hfile := s.size
    have hvalid := s.valid
    rw [← hheader] at hvalid
    refine ⟨?_, hvalid.magic, hvalid.ident_class, hvalid.ident_data, hvalid.ehsize, hvalid.phentsize,
      hvalid.shentsize, hvalid.shstrndx, ?_, ?_⟩
    . omega
    . rw [hheader, s.phnum]
      omega
    . rw [hheader, s.shnum]
      omega
  . unfold fileOf
    rw [hheader]
    dsimp only
    rw [hsegments, hsections]

theorem getElem?_out {out : Bytes} (hout : f.serialize = some out) {i : Nat}
    (hheader : (Ehdr.codec is64 E).size ≤ i)
    (hphdrs : i < f.header.e_phoff.toNat
      ∨ f.header.e_phoff.toNat + f.segments.length * (Phdr.codec is64 E).size ≤ i)
    (hshdrs : i < f.header.e_shoff.toNat
      ∨ f.header.e_shoff.toNat + f.sections.length * (Shdr.codec is64 E).size ≤ i)
    : out.toList[i]? = f.raw.toList[i]? := by
  have hfit := s.shdrs_fit
  have hphoff := s.phoff
  have hlen := s.length_withPhdrs
  have hlen' := s.length_withHeader
  have hsections : ((Shdr.codec is64 E).encodeAll f.sections).length = _ := Codec.length_encodeAll _ _
  have hsegments : ((Phdr.codec is64 E).encodeAll f.segments).length = _ := Codec.length_encodeAll _ _
  rw [(s.serialize_eq_some_iff out).mp hout]
  unfold withShdrs
  rw [getElem?_splice_of_not_mem _ _ _ _ (by omega) (by omega)]
  unfold withPhdrs
  rw [getElem?_splice_of_not_mem _ _ _ _ (by omega) (by omega), getElem?_withHeader_of_ge f i hheader]

theorem of_raw {raw : Bytes} (hsize : f.raw.size ≤ raw.size) : Separate { f with raw } := by
  have hfit := s.shdrs_fit
  have hphoff := s.phoff
  have hfile := s.size
  refine { s with size := ?_, phoff := ?_, shdrs_fit := ?_ }
  . exact Nat.le_trans hfile hsize
  . exact Nat.le_trans hphoff hsize
  . exact Nat.le_trans hfit hsize

theorem size_le_out {out : Bytes} (hout : f.serialize = some out) : f.raw.size ≤ out.size := by
  rw [s.size_out hout]
  apply Nat.le_max_left

end Separate

/-
What the calls do to such a file.
-/

section Accessors

variable (h : Ehdr is64 E) (addr : BitVec 64)

theorem valid_setEntry (hvalid : Ehdr.Valid h) : Ehdr.Valid (h.setEntry addr) := by
  cases is64
  . exact ⟨hvalid.magic, hvalid.ident_class, hvalid.ident_data, hvalid.ehsize, hvalid.phentsize,
      hvalid.shentsize, hvalid.shstrndx⟩
  . exact ⟨hvalid.magic, hvalid.ident_class, hvalid.ident_data, hvalid.ehsize, hvalid.phentsize,
      hvalid.shentsize, hvalid.shstrndx⟩

theorem e_phoff_setEntry : (h.setEntry addr).e_phoff = h.e_phoff := by
  cases is64 <;> rfl

theorem e_phnum_setEntry : (h.setEntry addr).e_phnum = h.e_phnum := by
  cases is64 <;> rfl

theorem e_shoff_setEntry : (h.setEntry addr).e_shoff = h.e_shoff := by
  cases is64 <;> rfl

theorem e_shnum_setEntry : (h.setEntry addr).e_shnum = h.e_shnum := by
  cases is64 <;> rfl

theorem e_entry_setEntry (haddr : addr.toNat < 2 ^ wordBits is64) : (h.setEntry addr).e_entry = addr := by
  cases is64
  . apply get_set_narrow addr haddr
  . apply Endianed.get_set

theorem valid_withTable (off : BitVec 64) (num : BitVec 16) (hvalid : Ehdr.Valid h)
    (hphentsize : h.e_phentsize.toNat = (Phdr.codec is64 E).size)
    : Ehdr.Valid (h.withTable off num) := by
  constructor
  . rw [Ehdr.e_ident_withTable]
    exact hvalid.magic
  . rw [Ehdr.e_ident_withTable]
    exact hvalid.ident_class
  . rw [Ehdr.e_ident_withTable]
    exact hvalid.ident_data
  . rw [Ehdr.e_ehsize_withTable]
    exact hvalid.ehsize
  . rw [Ehdr.e_phentsize_withTable]
    intro _
    exact hphentsize
  . rw [Ehdr.e_shnum_withTable, Ehdr.e_shentsize_withTable]
    exact hvalid.shentsize
  . rw [Ehdr.e_shnum_withTable, Ehdr.e_shstrndx_withTable]
    exact hvalid.shstrndx

end Accessors

theorem Separate.setEntry {f : ElfFile is64 E} (s : Separate f) (addr : BitVec 64)
    : Separate (f.setEntry addr) := by
  have hphoff := e_phoff_setEntry f.header addr
  have hphnum := e_phnum_setEntry f.header addr
  have hshoff := e_shoff_setEntry f.header addr
  have hshnum := e_shnum_setEntry f.header addr
  unfold ElfFile.setEntry
  constructor <;> dsimp only
  . apply valid_setEntry _ _ s.valid
  . rw [hphnum, s.phnum]
  . rw [hshnum, s.shnum]
  . exact s.size
  . rw [hphoff]
    exact s.phoff
  . rw [hshoff]
    exact s.shdrs_fit
  . rw [hphoff]
    exact s.phdrs_behind
  . rw [hshoff]
    exact s.shdrs_behind
  . rw [hphoff, hshoff]
    exact s.apart

/--
The table moves to the end, where it is apart from everything else.
-/
theorem Separate.load {f g : ElfFile is64 E} (s : Separate f) {call : LoadSegment} (h : f.load call = some g)
    (hcount : f.segments.length + 1 < 2 ^ 16)
    (hphentsize : f.header.e_phentsize.toNat = (Phdr.codec is64 E).size)
    (hwidth : f.raw.size + call.data.length < 2 ^ wordBits is64)
    : Separate g := by
  rw [addLoadSegment_eq_some_iff] at h
  have ⟨raw, hraw, hg⟩ := h
  rw [Bytes.append_eq_some_iff] at hraw
  have hsize : raw.size = f.raw.size + call.data.length := by
    unfold Bytes.size
    rw [hraw, List.length_append]
  have hval := toNat_ofNat_of_lt is64 raw.size (by omega)
  have hphoff : (f.header.withTable (BitVec.ofNat 64 raw.size)
      (BitVec.ofNat 16 (f.segments.length + 1))).e_phoff.toNat = raw.size := by
    rw [Ehdr.e_phoff_withTable _ _ _ (by omega), hval]
  have hfile := s.size
  have hfit := s.shdrs_fit
  rw [hg]
  constructor <;> dsimp only
  . apply valid_withTable _ _ _ s.valid hphentsize
  . rw [Ehdr.e_phnum_withTable, BitVec.toNat_ofNat, Nat.mod_eq_of_lt hcount, List.length_append,
      List.length_singleton]
  . rw [Ehdr.e_shnum_withTable, s.shnum]
  . omega
  . omega
  . rw [Ehdr.e_shoff_withTable]
    omega
  . omega
  . rw [Ehdr.e_shoff_withTable]
    exact s.shdrs_behind
  . rw [Ehdr.e_shoff_withTable, hphoff]
    omega

end ElfFile

end Elf
end ElfCraft
