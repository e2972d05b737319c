import ElfCraft.Elf.Lemmas.AddLoadSegment

/-!
This module contains runs of `patchBytesAt` on a parsed file: which of the patched bytes `serialize` writes
and where the header and the tables that are held apart get their way.
-/

namespace ElfCraft
namespace Elf

open Binary

namespace ElfFile

variable {is64 : Bool} {E : Endian}

theorem patchBytesAt_eq_ok_iff (f g : ElfFile is64 E) (offset : BitVec 64) (newBytes : List Byte)
    : f.patchBytesAt offset newBytes = .ok g
        ↔
      ∃ raw, f.raw.write offset.toNat newBytes = some raw ∧ g = { f with raw } := by
  unfold patchBytesAt
  cases hwrite : f.raw.write offset.toNat newBytes with
  | none =>
    have hfits : ¬ offset.toNat + newBytes.length ≤ f.raw.size := by
      intro hfits
      unfold Bytes.write at hwrite
      rw [dif_pos hfits] at hwrite
      contradiction
    rw [if_neg (by rw [detail.regionFits_bytes_iff, Nat.mul_one]; exact hfits)]
    simp
  | some raw =>
    have hfits := ((Bytes.write_eq_some_iff _ _ _ _).mp hwrite).left
    rw [if_pos (by rw [detail.regionFits_bytes_iff, Nat.mul_one]; exact hfits)]
    simp only [Except.ok.injEq, Option.some.injEq, exists_eq_left']
    rw [eq_comm]

-- A run of patches, up to the first one that is refused.
def patches (f : ElfFile is64 E) (writes : List (BitVec 64 × List Byte)) : Result (ElfFile is64 E) :=
  match writes with
  | [] => .ok f
  | (offset, newBytes) :: writes =>
    match f.patchBytesAt offset newBytes with
    | .error e => .error e
    | .ok f => f.patches writes

def spliced (xs : List Byte) (writes : List (BitVec 64 × List Byte)) : List Byte :=
  splices xs (writes.map fun (offset, newBytes) => (offset.toNat, newBytes))

/--
A run of patches splices all of them into the bytes, the header and the tables stay as they are.
-/
theorem patches_eq_ok (f g : ElfFile is64 E) (writes : List (BitVec 64 × List Byte))
    (h : f.patches writes = .ok g)
    : ∃ raw, g = { f with raw } ∧ raw.toList = spliced f.raw.toList writes ∧ raw.size = f.raw.size := by
  induction writes generalizing f with
  | nil =>
    simp only [patches, Except.ok.injEq] at h
    exact ⟨f.raw, h.symm, rfl, rfl⟩
  | cons write writes ih =>
    obtain ⟨offset, newBytes⟩ := write
    simp only [patches] at h
    split at h
    . contradiction
    . next f' hpatch =>
      rw [patchBytesAt_eq_ok_iff] at hpatch
      obtain ⟨raw', hwrite, rfl⟩ := hpatch
      rw [Bytes.write_eq_some_iff] at hwrite
      obtain ⟨hfits, hraw'⟩ := hwrite
      obtain ⟨raw, rfl, hraw, hsize⟩ := ih _ h
      refine ⟨raw, rfl, ?_, ?_⟩
      . rw [hraw, hraw']
        rfl
      . rw [hsize]
        unfold Bytes.size at *
        dsimp only
        rw [hraw', length_splice _ _ _ hfits]

/--
The positions that `serialize` writes the header and the tables to.
-/
def Held (f : ElfFile is64 E) (i : Nat) : Prop :=
  i < (Ehdr.codec is64 E).size
    ∨ (f.header.e_phoff.toNat ≤ i
      ∧ i < f.header.e_phoff.toNat + f.header.e_phnum.toNat * (Phdr.codec is64 E).size)
    ∨ (f.header.e_shoff.toNat ≤ i
      ∧ i < f.header.e_shoff.toNat + f.header.e_shnum.toNat * (Shdr.codec is64 E).size)

instance (f : ElfFile is64 E) (i : Nat) : Decidable (f.Held i) := by
  unfold Held
  infer_instance

section Overlay

variable (bytes raw : Bytes) (h : WellFormed is64 E bytes) (hsize : raw.size = bytes.size)
include h

/--
What is written over the patched bytes are runs of the parsed ones.
-/
theorem withShdrs_patched
    : ({ fileOf is64 E bytes with raw } : ElfFile is64 E).withShdrs
        =
      splice
        (splice (splice raw.toList 0 (slice bytes.toList 0 (Ehdr.codec is64 E).size))
          (headerOf is64 E bytes).e_phoff.toNat
          (slice bytes.toList (headerOf is64 E bytes).e_phoff.toNat
            ((headerOf is64 E bytes).e_phnum.toNat * (Phdr.codec is64 E).size)))
        (headerOf is64 E bytes).e_shoff.toNat
        (slice bytes.toList (headerOf is64 E bytes).e_shoff.toNat
          ((headerOf is64 E bytes).e_shnum.toNat * (Shdr.codec is64 E).size)) := by
  have hphdrs : (Phdr.codec is64 E).encodeAll (fileOf is64 E bytes).segments
      = slice bytes.toList (headerOf is64 E bytes).e_phoff.toNat
        ((headerOf is64 E bytes).e_phnum.toNat * (Phdr.codec is64 E).size) := by
    apply Codec.encodeAll_decodeAll
    exact length_slice _ _ _ h.phdrs_fit
  have hshdrs : (Shdr.codec is64 E).encodeAll (fileOf is64 E bytes).sections
      = slice bytes.toList (headerOf is64 E bytes).e_shoff.toNat
        ((headerOf is64 E bytes).e_shnum.toNat * (Shdr.codec is64 E).size) := by
    apply Codec.encodeAll_decodeAll
    exact length_slice _ _ _ h.shdrs_fit
  unfold withShdrs withPhdrs withHeader
  dsimp only
  rw [hphdrs, hshdrs, ← encode_headerOf bytes h]
  rfl

include hsize

theorem length_withShdrs_patched
    : ({ fileOf is64 E bytes with raw } : ElfFile is64 E).withShdrs.length = bytes.size := by
  have hheader := h.size
  have hph := h.phdrs_fit
  have hsh := h.shdrs_fit
  have hlen := length_slice bytes.toList 0 (Ehdr.codec is64 E).size (by rw [Nat.zero_add]; exact hheader)
  have hlen' := length_slice bytes.toList _ _ hph
  have hlen'' := length_slice bytes.toList _ _ hsh
  unfold Bytes.size at *
  rw [withShdrs_patched bytes raw h, length_splice, length_splice, length_splice, hsize]
  . omega
  . rw [length_splice]
    . omega
    . omega
  . rw [length_splice, length_splice]
    . omega
    . omega
    . rw [length_splice]
      . omega
      . omega

theorem getElem?_withShdrs_patched (i : Nat)
    : ({ fileOf is64 E bytes with raw } : ElfFile is64 E).withShdrs[i]?
        =
      if (fileOf is64 E bytes).Held i then bytes.toList[i]? else raw.toList[i]? := by
  have hheader := h.size
  have hph := h.phdrs_fit
  have hsh := h.shdrs_fit
  have hlen := length_slice bytes.toList 0 (Ehdr.codec is64 E).size (by rw [Nat.zero_add]; exact hheader)
  have hlen' := length_slice bytes.toList _ _ hph
  unfold Bytes.size at *
  have h1 : (splice raw.toList 0 (slice bytes.toList 0 (Ehdr.codec is64 E).size)).length
      = bytes.toList.length := by
    rw [length_splice, hsize]
    omega
  have h2 : (splice (splice raw.toList 0 (slice bytes.toList 0 (Ehdr.codec is64 E).size))
      (headerOf is64 E bytes).e_phoff.toNat
      (slice bytes.toList (headerOf is64 E bytes).e_phoff.toNat
        ((headerOf is64 E bytes).e_phnum.toNat * (Phdr.codec is64 E).size))).length
      = bytes.toList.length := by
    rw [length_splice, h1]
    omega
  rw [withShdrs_patched bytes raw h, getElem?_splice_slice _ _ _ _ _ (by omega) hsh,
    getElem?_splice_slice _ _ _ _ _ (by omega) hph,
    getElem?_splice_slice _ _ _ _ _ (by omega) (by omega)]
  unfold Held
  show _ = if i < (Ehdr.codec is64 E).size
    ∨ ((headerOf is64 E bytes).e_phoff.toNat ≤ i
      ∧ i < (headerOf is64 E bytes).e_phoff.toNat
        + (headerOf is64 E bytes).e_phnum.toNat * (Phdr.codec is64 E).size)
    ∨ ((headerOf is64 E bytes).e_shoff.toNat ≤ i
      ∧ i < (headerOf is64 E bytes).e_shoff.toNat
        + (headerOf is64 E bytes).e_shnum.toNat * (Shdr.codec is64 E).size) then _ else _
  split
  . next hin =>
    rw [if_pos (.inr (.inr hin))]
  . next hnot =>
    split
    . next hin =>
      rw [if_pos (.inr (.inl hin))]
    . next hnot' =>
      split
      . next hin =>
        rw [if_pos (.inl (by omega))]
      . next hnot'' =>
        rw [if_neg (by omega)]

end Overlay

/--
A run of patches is found in what is written, in order, outside of the header and the tables, which keep
the bytes that were parsed. So no patch is lost exactly when none of them leaves other bytes there.
-/
theorem serialize_patches (bytes : Bytes) (f g : ElfFile is64 E) (writes : List (BitVec 64 × List Byte))
    (hparse : parse is64 E bytes = .ok f) (hpatches : f.patches writes = .ok g)
    : ∃ out, g.serialize = some out
        ∧ out.size = bytes.size
        ∧ (∀ i, out.toList[i]?
            = if f.Held i then bytes.toList[i]? else (spliced bytes.toList writes)[i]?)
        ∧ (out.toList = spliced bytes.toList writes
            ↔
          ∀ i, f.Held i → (spliced bytes.toList writes)[i]? = bytes.toList[i]?) := by
  obtain ⟨hwf, rfl⟩ := (parse_eq_ok_iff bytes f).mp hparse
  obtain ⟨raw, rfl, hraw, hsize⟩ := patches_eq_ok _ g writes hpatches
  replace hraw : raw.toList = spliced bytes.toList writes := hraw
  replace hsize : raw.size = bytes.size := hsize
  have hph := hwf.phdrs_fit
  have hsh := hwf.shdrs_fit
  have hlen := length_withShdrs_patched bytes raw hwf hsize
  have hbyte := getElem?_withShdrs_patched bytes raw hwf hsize
  have hfits : ({ fileOf is64 E bytes with raw } : ElfFile is64 E).withShdrs.length ≤ maxSize := by
    rw [hlen]
    exact bytes.size_le
  have hout : ({ fileOf is64 E bytes with raw } : ElfFile is64 E).serialize = some ⟨_, hfits⟩ := by
    rw [serialize_eq_some_iff]
    . show (headerOf is64 E bytes).e_phoff.toNat ≤ raw.size
      omega
    . show (headerOf is64 E bytes).e_shoff.toNat ≤ raw.size
      omega
  rw [hraw] at hbyte
  refine ⟨_, hout, hlen, hbyte, ?_⟩
  constructor
  . intro heq i hheld
    have h := hbyte i
    rw [if_pos hheld] at h
    rw [← h, ← heq]
  . intro hkeep
    apply List.ext_getElem?
    intro i
    rw [hbyte i]
    split
    . next hheld =>
      rw [hkeep i hheld]
    . rfl

-- A header without tables and two bytes behind it.
def tailSample : Bytes := ⟨(bareHeader 56).toList ++ [0xAA, 0xBB], by decide +kernel⟩

theorem wellFormed_tailSample : WellFormed true .Big tailSample := by
  constructor <;> decide +kernel

theorem parse_tailSample : parse true .Big tailSample = .ok (fileOf true .Big tailSample) := by
  apply parse_of_wellFormed
  apply wellFormed_tailSample

theorem isOk_patches_tailSample
    : ((fileOf true .Big tailSample).patches [(64, [0x01]), (65, [0x02])]).isOk = true := by
  decide +kernel

theorem serialize_patches_tailSample
    : ∃ g out, (fileOf true .Big tailSample).patches [(64, [0x01]), (65, [0x02])] = .ok g
        ∧ g.serialize = some out ∧ out.size = 66 ∧ out.toList[64]? = some 0x01 := by
  cases hpatches : (fileOf true .Big tailSample).patches [(64, [0x01]), (65, [0x02])] with
  | error e =>
    have hok := isOk_patches_tailSample
    rw [hpatches] at hok
    exact absurd hok Bool.false_ne_true
  | ok g =>
    obtain ⟨out, hout, hsize, hbyte, -⟩ := serialize_patches _ _ _ _ parse_tailSample hpatches
    refine ⟨g, out, rfl, hout, hsize, ?_⟩
    rw [hbyte, if_neg (by decide +kernel)]
    decide +kernel

/--
A patch of the header is accepted, then `serialize` writes the parsed header over it.
-/
theorem serialize_patches_header
    : ¬ ∀ (f g : ElfFile true .Big) (offset : BitVec 64) (newBytes : List Byte) (out out' : Bytes),
        parse true .Big tailSample = .ok f → f.patchBytesAt offset newBytes = .ok g →
        f.serialize = some out → g.serialize = some out' →
        out'.toList = splice out.toList offset.toNat newBytes := by
  intro h
  have hlost : (((fileOf true .Big tailSample).patchBytesAt 24 [0x01]).toOption.map fun g =>
      decide (g.serialize = some tailSample)) = some true := by
    decide +kernel
  cases hpatch : (fileOf true .Big tailSample).patchBytesAt 24 [0x01] with
  | error e =>
    rw [hpatch] at hlost
    simp [Except.toOption] at hlost
  | ok g =>
    rw [hpatch, Except.toOption, Option.map_some, Option.some.injEq, decide_eq_true_eq] at hlost
    have hbefore := serialize_fileOf tailSample wellFormed_tailSample
    have hsame := h _ g 24 [0x01] _ _ parse_tailSample hpatch hbefore hlost
    have hdiff : tailSample.toList ≠ splice tailSample.toList (24 : BitVec 64).toNat [0x01] := by
      decide +kernel
    exact hdiff hsame

end ElfFile

end Elf
end ElfCraft
