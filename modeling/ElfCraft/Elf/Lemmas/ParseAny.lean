import ElfCraft.Elf.Lemmas.Parse

/-!
This module contains the proof that `parseAny` accepts exactly the four kinds of well formed files and
dispatches each of them to its own parser.
-/

namespace ElfCraft
namespace Elf

open Binary detail ElfFile

def AnyElfFile.of {is64 : Bool} {E : Endian} (file : ElfFile is64 E) : AnyElfFile :=
  match is64, E, file with
  | false, .Little, file => .le32 file
  | false, .Big, file => .be32 file
  | true, .Little, file => .le64 file
  | true, .Big, file => .be64 file

variable {is64 : Bool} {E : Endian}

theorem Ehdr.e_ident_decode (bs : List Byte) (i : Fin EI_NIDENT)
    : Ehdr.e_ident ((Ehdr.codec is64 E).decode bs) i = (bs.take EI_NIDENT).getD i.val 0 := by
  cases is64 <;> rfl

namespace ElfFile

theorem sizeof_Ehdr_ge (is64 : Bool) (E : Endian) : EI_NIDENT ≤ (Ehdr.codec is64 E).size := by
  cases is64
  . show 16 ≤ 52
    omega
  . show 16 ≤ 64
    omega

theorem e_ident_headerOf (bytes : Bytes) (i : Fin EI_NIDENT)
    : (headerOf is64 E bytes).e_ident i = bytes.toList.getD i.val 0 := by
  have hi := i.isLt
  have hsize := sizeof_Ehdr_ge is64 E
  have htake : (slice bytes.toList 0 (Ehdr.codec is64 E).size).take EI_NIDENT
      = bytes.toList.take EI_NIDENT := by
    unfold slice
    rw [List.drop_zero, List.take_take, Nat.min_eq_left hsize]
  unfold headerOf
  rw [Ehdr.e_ident_decode, htake]
  rw [List.getD_eq_getElem?_getD, List.getD_eq_getElem?_getD, List.getElem?_take]
  simp only [hi, ↓reduceIte]

theorem expectedClass_inj (is64 is64' : Bool) (h : expectedClass is64 = expectedClass is64')
    : is64 = is64' := by
  revert is64 is64'
  decide

theorem expectedData_inj (E E' : Endian) (h : expectedData E = expectedData E') : E = E' := by
  cases E <;> cases E' <;> first | rfl | (revert h; decide)

/--
The two bytes of `e_ident` that select the parser.
-/
structure Selects (bytes : Bytes) (is64 : Bool) (E : Endian) : Prop where
  class_byte : bytes.toList.getD EI_CLASS 0 = expectedClass is64
  data_byte : bytes.toList.getD EI_DATA 0 = expectedData E

theorem Selects.of_wellFormed (bytes : Bytes) (h : WellFormed is64 E bytes)
    : Selects bytes is64 E := by
  constructor
  . rw [← h.ident_class, e_ident_headerOf]
    rfl
  . rw [← h.ident_data, e_ident_headerOf]
    rfl

theorem Selects.unique (bytes : Bytes) {is64' : Bool} {E' : Endian} (h : Selects bytes is64 E)
    (h' : Selects bytes is64' E')
    : is64' = is64 ∧ E' = E := by
  constructor
  . apply expectedClass_inj
    rw [← h.class_byte, ← h'.class_byte]
  . apply expectedData_inj
    rw [← h.data_byte, ← h'.data_byte]

theorem parse_error_of_not_wellFormed (bytes : Bytes) (h : ¬ WellFormed is64 E bytes)
    : ∃ e, parse is64 E bytes = .error e := by
  cases hparse : parse is64 E bytes with
  | error e => exact ⟨e, rfl⟩
  | ok f => exact absurd (wellFormed_of_parse bytes f hparse) h

end ElfFile

/--
Behind its own checks `parseAny` is the parser that the two bytes select.
-/
theorem parseAny_of_selects (bytes : Bytes) (hsize : EI_NIDENT ≤ bytes.size)
    (hmagic : bytes.toList.getD 0 0 = ELFMAG0 ∧ bytes.toList.getD 1 0 = ELFMAG1
      ∧ bytes.toList.getD 2 0 = ELFMAG2 ∧ bytes.toList.getD 3 0 = ELFMAG3)
    (hsel : Selects bytes is64 E)
    : parseAny bytes = (parse is64 E bytes).map .of := by
  obtain ⟨h0, h1, h2, h3⟩ := hmagic
  obtain ⟨hclass, hdata⟩ := hsel
  have h64 : ELFCLASS64 ≠ ELFCLASS32 := by decide
  have hbig : ELFDATA2MSB ≠ ELFDATA2LSB := by decide
  unfold parseAny
  rw [if_neg (by omega)]
  simp only [h0, h1, h2, h3, hclass, hdata, ne_eq, not_true_eq_false, or_self, ↓reduceIte]
  cases is64 <;> cases E
    <;> simp only [expectedClass, expectedData, Bool.false_eq_true, reduceCtorEq, ↓reduceIte, h64, hbig,
      not_true_eq_false, not_false_eq_true, and_true, and_false, and_self]
    <;> rfl

theorem checks_of_parseAny (bytes : Bytes) (a : AnyElfFile) (h : parseAny bytes = .ok a)
    : EI_NIDENT ≤ bytes.size
        ∧
      (bytes.toList.getD 0 0 = ELFMAG0 ∧ bytes.toList.getD 1 0 = ELFMAG1
        ∧ bytes.toList.getD 2 0 = ELFMAG2 ∧ bytes.toList.getD 3 0 = ELFMAG3)
        ∧
      ∃ is64 E, Selects bytes is64 E := by
  unfold parseAny at h
  simp only [ite_error_eq_ok_iff, not_or, not_and, Decidable.not_not, ne_eq] at h
  obtain ⟨hsize, hmagic, hclass, hdata, -⟩ := h
  refine ⟨by omega, hmagic, ?_⟩
  have hclass' : ∃ is64, bytes.toList.getD EI_CLASS 0 = expectedClass is64 := by
    by_cases hc : bytes.toList.getD EI_CLASS 0 = ELFCLASS32
    . exact ⟨false, hc⟩
    . exact ⟨true, hclass hc⟩
  have hdata' : ∃ E, bytes.toList.getD EI_DATA 0 = expectedData E := by
    by_cases hd : bytes.toList.getD EI_DATA 0 = ELFDATA2LSB
    . exact ⟨.Little, hd⟩
    . exact ⟨.Big, hdata hd⟩
  obtain ⟨is64, hc⟩ := hclass'
  obtain ⟨E, hd⟩ := hdata'
  exact ⟨is64, E, hc, hd⟩

theorem parseAny_of_wellFormed (bytes : Bytes) (h : WellFormed is64 E bytes)
    : parseAny bytes = .ok (.of (fileOf is64 E bytes)) := by
  have hsize := sizeof_Ehdr_ge is64 E
  have hmagic := h.magic
  simp only [e_ident_headerOf] at hmagic
  rw [parseAny_of_selects bytes (Nat.le_trans hsize h.size) hmagic (.of_wellFormed bytes h)]
  rw [parse_of_wellFormed bytes h]
  rfl

theorem parseAny_eq_ok_iff (bytes : Bytes) (a : AnyElfFile)
    : parseAny bytes = .ok a
        ↔
      ∃ is64 E, WellFormed is64 E bytes ∧ a = .of (fileOf is64 E bytes) := by
  constructor
  . intro h
    obtain ⟨hsize, hmagic, is64, E, hsel⟩ := checks_of_parseAny bytes a h
    rw [parseAny_of_selects bytes hsize hmagic hsel] at h
    cases hparse : parse is64 E bytes with
    | error e =>
      rw [hparse] at h
      contradiction
    | ok f =>
      have hwf := wellFormed_of_parse bytes f hparse
      rw [hparse, Except.map] at h
      rw [parse_of_wellFormed bytes hwf] at hparse
      refine ⟨is64, E, hwf, ?_⟩
      rw [← Except.ok.inj h, Except.ok.inj hparse]
  . rintro ⟨is64, E, hwf, ha⟩
    rw [parseAny_of_wellFormed bytes hwf, ha]

/--
What a successful `parseAny` returns for the class `is64` and the byte order `E`. The counts and the places of the
entries are those in the header at the front of the bytes.
-/
structure Dispatched (bytes : Bytes) (is64 : Bool) (E : Endian) (a : AnyElfFile) (f : ElfFile is64 E)
    : Prop where
  alternative : a = .of f
  parsed : parse is64 E bytes = .ok f
  others_reject : ∀ is64' E', (is64', E') ≠ (is64, E) → ∃ e, parse is64' E' bytes = .error e
  header : f.header = headerOf is64 E bytes
  raw : f.raw = bytes
  segments_length : f.segments.length = (headerOf is64 E bytes).e_phnum.toNat
  segments_entry : ∀ i < (headerOf is64 E bytes).e_phnum.toNat, f.segments[i]? = some ((Phdr.codec is64 E).decode
    (slice bytes.toList ((headerOf is64 E bytes).e_phoff.toNat + i * (Phdr.codec is64 E).size)
      (Phdr.codec is64 E).size))
  sections_length : f.sections.length = (headerOf is64 E bytes).e_shnum.toNat
  sections_entry : ∀ i < (headerOf is64 E bytes).e_shnum.toNat, f.sections[i]? = some ((Shdr.codec is64 E).decode
    (slice bytes.toList ((headerOf is64 E bytes).e_shoff.toNat + i * (Shdr.codec is64 E).size)
      (Shdr.codec is64 E).size))

theorem Dispatched.of_wellFormed (bytes : Bytes) (h : WellFormed is64 E bytes)
    : Dispatched bytes is64 E (.of (fileOf is64 E bytes)) (fileOf is64 E bytes) where
  alternative := rfl
  parsed := parse_of_wellFormed bytes h
  others_reject is64' E' hne := by
    apply parse_error_of_not_wellFormed
    intro h'
    obtain ⟨rfl, rfl⟩ := Selects.unique bytes (.of_wellFormed bytes h) (.of_wellFormed bytes h')
    contradiction
  header := rfl
  raw := rfl
  segments_length := Codec.length_decodeAll _ _ _
  segments_entry i hi := Codec.getElem?_decodeAll_slice _ _ _ _ _ _ hi (Nat.le_refl _)
  sections_length := Codec.length_decodeAll _ _ _
  sections_entry i hi := Codec.getElem?_decodeAll_slice _ _ _ _ _ _ hi (Nat.le_refl _)

theorem readStruct_of_regionFits {α : Type} (c : Codec α) (bytes : Bytes) (offset : BitVec 64)
    (count i : Nat) (h : regionFits bytes.size offset.toNat count c.size = true) (hi : i < count)
    : ∃ v, readStruct c bytes (offset + BitVec.ofNat 64 (i * c.size)) = .ok v := by
  rw [regionFits_bytes_iff] at h
  have hsize := bytes.size_lt
  have hle : (i + 1) * c.size ≤ count * c.size := Nat.mul_le_mul_right _ hi
  rw [Nat.succ_mul] at hle
  have hoff := toNat_add_ofNat offset (i * c.size) (by omega)
  exact ⟨_, readStruct_of_le c bytes _ (by omega)⟩

/--
The parser accepts exactly its format, dispatches on the two bytes of `e_ident`, and no read of a
table entry fails once the table has passed its region test.
-/
theorem parseAny_accepts_exactly (bytes : Bytes)
    : ((∃ a, parseAny bytes = .ok a)
          ↔
        ∃ is64 E, Selects bytes is64 E ∧ WellFormed is64 E bytes)
        ∧
      (∀ a, parseAny bytes = .ok a →
        ∃ is64 E, ∃ (f : ElfFile is64 E), Selects bytes is64 E ∧ Dispatched bytes is64 E a f)
        ∧
      (∀ is64 E (header : Ehdr is64 E),
        (regionFits bytes.size header.e_phoff.toNat header.e_phnum.toNat (Phdr.codec is64 E).size →
          ∀ i < header.e_phnum.toNat, ∃ ph, readStruct (Phdr.codec is64 E) bytes
            (header.e_phoff + BitVec.ofNat 64 (i * (Phdr.codec is64 E).size)) = .ok ph)
          ∧
        (regionFits bytes.size header.e_shoff.toNat header.e_shnum.toNat (Shdr.codec is64 E).size →
          ∀ i < header.e_shnum.toNat, ∃ sh, readStruct (Shdr.codec is64 E) bytes
            (header.e_shoff + BitVec.ofNat 64 (i * (Shdr.codec is64 E).size)) = .ok sh)) := by
  refine ⟨⟨?_, ?_⟩, ?_, ?_⟩
  . rintro ⟨a, ha⟩
    obtain ⟨is64, E, hwf, -⟩ := (parseAny_eq_ok_iff bytes a).mp ha
    exact ⟨is64, E, .of_wellFormed bytes hwf, hwf⟩
  . rintro ⟨is64, E, -, hwf⟩
    exact ⟨_, parseAny_of_wellFormed bytes hwf⟩
  . intro a ha
    obtain ⟨is64, E, hwf, rfl⟩ := (parseAny_eq_ok_iff bytes a).mp ha
    exact ⟨is64, E, _, .of_wellFormed bytes hwf, .of_wellFormed bytes hwf⟩
  . intro is64 E header
    constructor
    . intro h i hi
      exact readStruct_of_regionFits _ _ _ _ _ h hi
    . intro h i hi
      exact readStruct_of_regionFits _ _ _ _ _ h hi

end Elf
end ElfCraft
