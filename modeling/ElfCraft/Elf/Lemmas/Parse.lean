import ElfCraft.Elf.File

/-!
This module contains what the parser accepts and what it returns.
-/

namespace ElfCraft
namespace Elf

open Binary

theorem ite_error_eq_ok_iff {ε α : Type} (c : Prop) [Decidable c] (e : ε) (x : Except ε α) (v : α)
    : (if c then .error e else x) = .ok v ↔ ¬ c ∧ x = .ok v := by
  split
  . next h => simp [h]
  . next h => simp [h]

theorem ite_error_eq_error_iff {ε α : Type} (c : Prop) [Decidable c] (e e' : ε) (x : Except ε α)
    : (if c then .error e else x) = .error e' ↔ c ∧ e = e' ∨ ¬ c ∧ x = .error e' := by
  split
  . next h => simp [h]
  . next h => simp [h]

namespace detail

variable {α : Type}

theorem regionFits_iff (bufferSize offset count elemSize : Nat) (h : bufferSize < 2 ^ 64)
    : regionFits bufferSize offset count elemSize = true
        ↔
      offset + count * elemSize ≤ bufferSize := by
  unfold regionFits
  split
  . next hguard =>
    have hlt : 2 ^ 64 - 1 < elemSize * count := by
      rw [← Nat.div_lt_iff_lt_mul (by omega)]
      omega
    rw [Nat.mul_comm elemSize count] at hlt
    simp only [Bool.false_eq_true, false_iff]
    omega
  . next hguard =>
    have hle : count * elemSize ≤ 2 ^ 64 - 1 := by
      rcases Nat.eq_zero_or_pos count with hzero | hpos
      . rw [hzero, Nat.zero_mul]
        omega
      . rw [Nat.mul_comm, ← Nat.le_div_iff_mul_le hpos]
        omega
    rw [Nat.mod_eq_of_lt (by omega)]
    dsimp only
    split
    . simp only [Bool.false_eq_true, false_iff]
      omega
    . split
      . simp only [Bool.false_eq_true, false_iff]
        omega
      . simp only [true_iff]
        omega

theorem regionFits_bytes_iff (bytes : Bytes) (offset count elemSize : Nat)
    : regionFits bytes.size offset count elemSize = true
        ↔
      offset + count * elemSize ≤ bytes.size := by
  apply regionFits_iff
  have := bytes.size_lt
  omega

theorem readStruct_of_le (c : Codec α) (bytes : Bytes) (offset : BitVec 64)
    (h : offset.toNat + c.size ≤ bytes.size)
    : readStruct c bytes offset = .ok (c.decode (slice bytes.toList offset.toNat c.size)) := by
  unfold readStruct
  have : ¬ (offset.toNat > bytes.size ∨ bytes.size - offset.toNat < c.size) := by omega
  simp only [this, ↓reduceIte]

theorem readStruct_eq_ok_iff (c : Codec α) (bytes : Bytes) (offset : BitVec 64) (v : α)
    : readStruct c bytes offset = .ok v
        ↔
      offset.toNat + c.size ≤ bytes.size
        ∧ v = c.decode (slice bytes.toList offset.toNat c.size) := by
  unfold readStruct
  split
  . simp only [reduceCtorEq, false_iff, not_and]
    omega
  . simp only [Except.ok.injEq, eq_comm (b := v)]
    constructor
    . intro h
      exact ⟨by omega, h⟩
    . intro h
      exact h.right

theorem toNat_add_ofNat (offset : BitVec 64) (k : Nat) (h : offset.toNat + k < 2 ^ 64)
    : (offset + BitVec.ofNat 64 k).toNat = offset.toNat + k := by
  rw [BitVec.toNat_add, BitVec.toNat_ofNat, Nat.mod_eq_of_lt (by omega : k < 2 ^ 64),
    Nat.mod_eq_of_lt h]

/--
No round of the loop fails once the region test has passed.
-/
theorem readTable_of_le (c : Codec α) (bytes : Bytes) (offset : BitVec 64) (n : Nat)
    (h : offset.toNat + n * c.size ≤ bytes.size)
    : readTable c bytes offset n
        =
      .ok (c.decodeAll n (slice bytes.toList offset.toNat (n * c.size))) := by
  induction n with
  | zero => rfl
  | succ n ih =>
    have hsize := bytes.size_lt
    have hn : offset.toNat + n * c.size + c.size ≤ bytes.size := by
      rw [Nat.succ_mul] at h
      omega
    have hoff := toNat_add_ofNat offset (n * c.size) (by omega)
    have hlen := length_slice bytes.toList offset.toNat ((n + 1) * c.size) h
    rw [Nat.succ_mul] at hlen
    simp only [readTable]
    rw [ih (by omega)]
    dsimp only
    rw [readStruct_of_le c bytes _ (by omega)]
    dsimp only
    rw [hoff, Nat.succ_mul, c.decodeAll_succ_append _ _ (by omega)]
    rw [slice_slice _ _ _ _ _ (by omega), c.decodeAll_slice_of_le n _ (n * c.size + c.size) _ (by omega)]

end detail

open detail

namespace ElfFile

variable {is64 : Bool} {E : Endian}

def headerOf (is64 : Bool) (E : Endian) (bytes : Bytes) : Ehdr is64 E :=
  (Ehdr.codec is64 E).decode (slice bytes.toList 0 (Ehdr.codec is64 E).size)

/--
The format of a file of class `is64` and byte order `E`, over the natural numbers.
-/
structure WellFormed (is64 : Bool) (E : Endian) (bytes : Bytes) : Prop where
  size : (Ehdr.codec is64 E).size ≤ bytes.size
  magic : (headerOf is64 E bytes).e_ident 0 = ELFMAG0 ∧ (headerOf is64 E bytes).e_ident 1 = ELFMAG1
    ∧ (headerOf is64 E bytes).e_ident 2 = ELFMAG2 ∧ (headerOf is64 E bytes).e_ident 3 = ELFMAG3
  ident_class : (headerOf is64 E bytes).e_ident 4 = expectedClass is64
  ident_data : (headerOf is64 E bytes).e_ident 5 = expectedData E
  ehsize : (headerOf is64 E bytes).e_ehsize.toNat = (Ehdr.codec is64 E).size
  phentsize : 0 < (headerOf is64 E bytes).e_phnum →
    (headerOf is64 E bytes).e_phentsize.toNat = (Phdr.codec is64 E).size
  shentsize : 0 < (headerOf is64 E bytes).e_shnum →
    (headerOf is64 E bytes).e_shentsize.toNat = (Shdr.codec is64 E).size
  shstrndx : 0 < (headerOf is64 E bytes).e_shnum →
    (headerOf is64 E bytes).e_shstrndx < (headerOf is64 E bytes).e_shnum
  phdrs_fit : (headerOf is64 E bytes).e_phoff.toNat
    + (headerOf is64 E bytes).e_phnum.toNat * (Phdr.codec is64 E).size ≤ bytes.size
  shdrs_fit : (headerOf is64 E bytes).e_shoff.toNat
    + (headerOf is64 E bytes).e_shnum.toNat * (Shdr.codec is64 E).size ≤ bytes.size

def tableOf {α : Type} (c : Codec α) (bytes : Bytes) (offset n : Nat) : List α :=
  c.decodeAll n (slice bytes.toList offset (n * c.size))

def fileOf (is64 : Bool) (E : Endian) (bytes : Bytes) : ElfFile is64 E :=
  let header := headerOf is64 E bytes
  { header
    segments := tableOf (Phdr.codec is64 E) bytes header.e_phoff.toNat header.e_phnum.toNat
    sections := tableOf (Shdr.codec is64 E) bytes header.e_shoff.toNat header.e_shnum.toNat
    raw := bytes }

theorem parse_of_wellFormed (bytes : Bytes) (h : WellFormed is64 E bytes)
    : parse is64 E bytes = .ok (fileOf is64 E bytes) := by
  have hheader : readStruct (Ehdr.codec is64 E) bytes 0 = .ok (headerOf is64 E bytes) := by
    apply readStruct_of_le
    have := h.size
    simpa using this
  unfold parse
  rw [hheader]
  dsimp only
  rw [if_neg (by simp [h.magic]), if_neg (by simp [h.ident_class]), if_neg (by simp [h.ident_data])]
  rw [if_neg (by simp [h.ehsize])]
  rw [if_neg (by rintro ⟨h1, h2⟩; exact h2 (h.phentsize h1))]
  rw [if_neg (by rintro ⟨h1, h2⟩; exact h2 (h.shentsize h1))]
  rw [if_neg (by rw [regionFits_bytes_iff]; simpa using h.phdrs_fit)]
  rw [if_neg (by rw [regionFits_bytes_iff]; simpa using h.shdrs_fit)]
  rw [readTable_of_le _ _ _ _ h.phdrs_fit, readTable_of_le _ _ _ _ h.shdrs_fit]
  dsimp only
  rw [if_neg (by rintro ⟨h1, h2⟩; exact BitVec.not_le.mpr (h.shstrndx h1) h2)]
  rfl

theorem wellFormed_of_parse (bytes : Bytes) (f : ElfFile is64 E) (h : parse is64 E bytes = .ok f)
    : WellFormed is64 E bytes := by
  unfold parse at h
  split at h
  . contradiction
  . next header hread =>
    -- every check that lets the input through is one field of the format
    simp only [ite_error_eq_ok_iff] at h
    obtain ⟨hmagic, hclass, hdata, hehsize, hphentsize, hshentsize, hphdrs, hshdrs, h⟩ := h
    rw [readStruct_eq_ok_iff] at hread
    obtain ⟨hsize, hheader⟩ := hread
    replace hheader : header = headerOf is64 E bytes := hheader
    replace hsize : (Ehdr.codec is64 E).size ≤ bytes.size := by simpa using hsize
    rw [Decidable.not_not, regionFits_bytes_iff] at hphdrs hshdrs
    rw [readTable_of_le _ _ _ _ hphdrs, readTable_of_le _ _ _ _ hshdrs] at h
    simp only [ite_error_eq_ok_iff] at h
    obtain ⟨hshstrndx, -⟩ := h
    simp only [ne_eq, not_or, Decidable.not_not] at hmagic hclass hdata hehsize
    rw [hheader] at hmagic hclass hdata hehsize hphentsize hshentsize hphdrs hshdrs hshstrndx
    refine ⟨hsize, hmagic, hclass, hdata, hehsize, ?_, ?_, ?_, hphdrs, hshdrs⟩
    . intro hpos
      exact Decidable.by_contra fun hne => hphentsize ⟨hpos, hne⟩
    . intro hpos
      exact Decidable.by_contra fun hne => hshentsize ⟨hpos, hne⟩
    . intro hpos
      exact BitVec.not_le.mp fun hle => hshstrndx ⟨hpos, hle⟩

theorem parse_eq_ok_iff (bytes : Bytes) (f : ElfFile is64 E)
    : parse is64 E bytes = .ok f ↔ WellFormed is64 E bytes ∧ f = fileOf is64 E bytes := by
  constructor
  . intro h
    have hwf := wellFormed_of_parse bytes f h
    rw [parse_of_wellFormed bytes hwf, Except.ok.injEq] at h
    exact ⟨hwf, h.symm⟩
  . rintro ⟨hwf, hf⟩
    rw [parse_of_wellFormed bytes hwf, hf]

end ElfFile

end Elf
end ElfCraft
