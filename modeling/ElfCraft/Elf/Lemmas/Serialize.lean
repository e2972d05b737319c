import ElfCraft.Elf.Lemmas.ParseAny

/-!
This module contains what `serialize` writes: the header and both tables are spliced into the bytes of
the file. For a file that was just parsed every one of them is already there.
-/

namespace ElfCraft
namespace Elf

open Binary

namespace ElfFile

section Write

variable {α : Type}

theorem ensureCapacity_eq_some_iff (buf out : Bytes) (n : Nat)
    : ensureCapacity buf n = some out
        ↔
      out.toList = buf.toList ++ List.replicate (n - buf.size) 0 := by
  unfold ensureCapacity
  split
  . next h =>
    unfold Bytes.resize
    rw [Bytes.append_eq_some_iff]
  . next h =>
    rw [show n - buf.size = 0 by omega, List.replicate_zero, List.append_nil, Option.some.injEq]
    constructor
    . intro heq
      rw [heq]
    . intro heq
      exact Bytes.ext heq.symm

/--
A struct that starts inside of the buffer is spliced into it, the buffer grows if it has to.
-/
theorem writeStruct_eq_some_iff (c : Codec α) (buf out : Bytes) (offset : BitVec 64) (value : α)
    (hc : c.size < 2 ^ 63) (h : offset.toNat ≤ buf.size)
    : writeStruct c buf offset value = some out
        ↔
      out.toList = splice buf.toList offset.toNat (c.encode value) := by
  have hbuf := buf.size_lt
  have hreq : (offset + BitVec.ofNat 64 c.size).toNat = offset.toNat + c.size :=
    detail.toNat_add_ofNat offset c.size (by omega)
  have hlen : (c.encode value).length = c.size := c.length_encode value
  have hpad := splice_append_replicate buf.toList (c.encode value) 0 offset.toNat h
  rw [hlen] at hpad
  unfold writeStruct
  rw [hreq]
  constructor
  . intro hwrite
    cases hcap : ensureCapacity buf (offset.toNat + c.size) with
    | none =>
      rw [hcap] at hwrite
      contradiction
    | some buf' =>
      rw [hcap] at hwrite
      rw [ensureCapacity_eq_some_iff] at hcap
      have hsplice := ((Bytes.write_eq_some_iff _ _ _ _).mp hwrite).right
      rw [hcap] at hsplice
      exact hsplice.trans hpad
  . intro hout
    have hout_size : offset.toNat + c.size ≤ out.size ∧ buf.size ≤ out.size := by
      unfold Bytes.size at *
      rw [hout, length_splice' _ _ _ h, hlen]
      omega
    have hmax := out.size_le
    have hgrown : (buf.toList ++ List.replicate (offset.toNat + c.size - buf.size) 0).length
        = max buf.size (offset.toNat + c.size) := by
      rw [List.length_append, List.length_replicate]
      unfold Bytes.size at *
      omega
    have hfits : (buf.toList ++ List.replicate (offset.toNat + c.size - buf.size) 0).length ≤ maxSize := by
      rw [hgrown]
      unfold Bytes.size at *
      omega
    have hcap : ensureCapacity buf (offset.toNat + c.size) = some ⟨_, hfits⟩ := by
      rw [ensureCapacity_eq_some_iff]
    rw [hcap]
    dsimp only
    rw [Bytes.write_eq_some_iff, hlen]
    constructor
    . show offset.toNat + c.size ≤ (buf.toList ++ _).length
      rw [hgrown]
      omega
    . exact hout.trans hpad.symm

theorem writeTable.go_eq_some_iff (c : Codec α) (offset : BitVec 64) (items : List α) (buf out : Bytes)
    (i : Nat) (hc : c.size < 2 ^ 63) (h : offset.toNat + i * c.size ≤ buf.size)
    : writeTable.go c offset buf i items = some out
        ↔
      out.toList = splice buf.toList (offset.toNat + i * c.size) (c.encodeAll items) := by
  induction items generalizing buf i with
  | nil =>
    simp only [go, Codec.encodeAll, List.flatMap_nil, splice_nil, Option.some.injEq]
    constructor
    . intro heq
      rw [heq]
    . intro heq
      exact Bytes.ext heq.symm
  | cons item items ih =>
    have hbuf := buf.size_lt
    have hoff := detail.toNat_add_ofNat offset (i * c.size) (by omega)
    have hlen : (c.encode item).length = c.size := c.length_encode item
    have hall : c.encodeAll (item :: items) = c.encode item ++ c.encodeAll items := by
      rw [Codec.encodeAll, List.flatMap_cons, Codec.encodeAll]
    have hmerge : splice buf.toList (offset.toNat + i * c.size) (c.encodeAll (item :: items))
        = splice (splice buf.toList (offset.toNat + i * c.size) (c.encode item))
          (offset.toNat + (i + 1) * c.size) (c.encodeAll items) := by
      rw [hall, ← splice_append _ _ _ _ h, hlen, Nat.succ_mul, Nat.add_assoc]
    have hstep (buf' : Bytes) := writeStruct_eq_some_iff c buf buf'
      (offset + BitVec.ofNat 64 (i * c.size)) item hc (by omega)
    rw [hoff] at hstep
    have hnext (buf' : Bytes)
        (hbuf' : buf'.toList = splice buf.toList (offset.toNat + i * c.size) (c.encode item))
        : offset.toNat + (i + 1) * c.size ≤ buf'.size := by
      unfold Bytes.size at *
      rw [hbuf', length_splice' _ _ _ h, hlen, Nat.succ_mul]
      omega
    simp only [go]
    rw [hmerge]
    constructor
    . intro hgo
      cases hw : writeStruct c buf (offset + BitVec.ofNat 64 (i * c.size)) item with
      | none =>
        rw [hw] at hgo
        contradiction
      | some buf' =>
        have hbuf' := (hstep buf').mp hw
        rw [hw] at hgo
        rw [← hbuf']
        exact (ih buf' (i + 1) (hnext buf' hbuf')).mp hgo
    . intro hout
      have hfits : (splice buf.toList (offset.toNat + i * c.size) (c.encode item)).length
          ≤ maxSize := by
        have hmax := out.size_le
        rw [hout, length_splice', length_splice' _ _ _ h, hlen] at hmax
        . rw [length_splice' _ _ _ h, hlen]
          omega
        . rw [length_splice' _ _ _ h, hlen, Nat.succ_mul]
          omega
      rw [(hstep ⟨_, hfits⟩).mpr rfl]
      exact (ih ⟨_, hfits⟩ (i + 1) (hnext _ rfl)).mpr hout

theorem writeTable_eq_some_iff (c : Codec α) (buf out : Bytes) (offset : BitVec 64) (items : List α)
    (hc : c.size < 2 ^ 63) (h : offset.toNat ≤ buf.size)
    : writeTable c buf offset items = some out
        ↔
      out.toList = splice buf.toList offset.toNat (c.encodeAll items) := by
  have hgo := writeTable.go_eq_some_iff c offset items buf out 0 hc (by omega)
  rw [Nat.zero_mul, Nat.add_zero] at hgo
  exact hgo

end Write

variable {is64 : Bool} {E : Endian}

theorem sizeof_Ehdr_lt (is64 : Bool) (E : Endian) : (Ehdr.codec is64 E).size < 2 ^ 63 := by
  cases is64
  . show 52 < 2 ^ 63
    omega
  . show 64 < 2 ^ 63
    omega

theorem sizeof_Phdr_lt (is64 : Bool) (E : Endian) : (Phdr.codec is64 E).size < 2 ^ 63 := by
  cases is64
  . show 32 < 2 ^ 63
    omega
  . show 56 < 2 ^ 63
    omega

theorem sizeof_Shdr_lt (is64 : Bool) (E : Endian) : (Shdr.codec is64 E).size < 2 ^ 63 := by
  cases is64
  . show 40 < 2 ^ 63
    omega
  . show 64 < 2 ^ 63
    omega

-- The three writes of `serialize`, in their order.
def withHeader (f : ElfFile is64 E) : List Byte :=
  splice f.raw.toList 0 ((Ehdr.codec is64 E).encode f.header)

def withPhdrs (f : ElfFile is64 E) : List Byte :=
  splice f.withHeader f.header.e_phoff.toNat ((Phdr.codec is64 E).encodeAll f.segments)

def withShdrs (f : ElfFile is64 E) : List Byte :=
  splice f.withPhdrs f.header.e_shoff.toNat ((Shdr.codec is64 E).encodeAll f.sections)

theorem length_withHeader (f : ElfFile is64 E)
    : f.withHeader.length = max f.raw.size (Ehdr.codec is64 E).size := by
  unfold withHeader
  rw [length_splice' _ _ _ (Nat.zero_le _), Codec.length_encode, Nat.zero_add]
  rfl

theorem length_withPhdrs (f : ElfFile is64 E) (h : f.header.e_phoff.toNat ≤ f.raw.size)
    : f.withPhdrs.length
        =
      max f.withHeader.length
        (f.header.e_phoff.toNat + f.segments.length * (Phdr.codec is64 E).size) := by
  have hlen := length_withHeader f
  unfold withPhdrs
  rw [length_splice' _ _ _ (by omega), Codec.length_encodeAll]

theorem length_withShdrs (f : ElfFile is64 E) (hph : f.header.e_phoff.toNat ≤ f.raw.size)
    (hsh : f.header.e_shoff.toNat ≤ f.raw.size)
    : f.withShdrs.length
        =
      max f.withPhdrs.length
        (f.header.e_shoff.toNat + f.sections.length * (Shdr.codec is64 E).size) := by
  have hlen := length_withHeader f
  have hlen' := length_withPhdrs f hph
  unfold withShdrs
  rw [length_splice' _ _ _ (by omega), Codec.length_encodeAll]

/--
Both tables start inside of the file, then `serialize` either writes all of it or runs out of size.
-/
theorem serialize_eq_some_iff (f : ElfFile is64 E) (out : Bytes)
    (hph : f.header.e_phoff.toNat ≤ f.raw.size) (hsh : f.header.e_shoff.toNat ≤ f.raw.size)
    : f.serialize = some out ↔ out.toList = f.withShdrs := by
  have hlen := length_withHeader f
  have hlen' := length_withPhdrs f hph
  have hlen'' := length_withShdrs f hph hsh
  have hheader (out : Bytes) : writeStruct (Ehdr.codec is64 E) f.raw 0 f.header = some out
      ↔ out.toList = f.withHeader := by
    apply writeStruct_eq_some_iff _ _ _ _ _ (sizeof_Ehdr_lt is64 E)
    exact Nat.zero_le _
  have hphdrs (b out : Bytes) (hb : b.toList = f.withHeader)
      : writeTable (Phdr.codec is64 E) b f.header.e_phoff f.segments = some out
        ↔ out.toList = f.withPhdrs := by
    rw [writeTable_eq_some_iff _ _ _ _ _ (sizeof_Phdr_lt is64 E), hb]
    . rfl
    . unfold Bytes.size at *
      rw [hb]
      omega
  have hshdrs (b out : Bytes) (hb : b.toList = f.withPhdrs)
      : writeTable (Shdr.codec is64 E) b f.header.e_shoff f.sections = some out
        ↔ out.toList = f.withShdrs := by
    rw [writeTable_eq_some_iff _ _ _ _ _ (sizeof_Shdr_lt is64 E), hb]
    . rfl
    . unfold Bytes.size at *
      rw [hb]
      omega
  unfold serialize
  constructor
  . intro h
    cases h1 : writeStruct (Ehdr.codec is64 E) f.raw 0 f.header with
    | none =>
      rw [h1] at h
      contradiction
    | some b1 =>
      rw [h1] at h
      rw [hheader] at h1
      dsimp only at h
      cases h2 : writeTable (Phdr.codec is64 E) b1 f.header.e_phoff f.segments with
      | none =>
        rw [h2] at h
        contradiction
      | some b2 =>
        rw [h2] at h
        rw [hphdrs b1 b2 h1] at h2
        exact (hshdrs b2 out h2).mp h
  . intro h
    have hmax := out.size_le
    rw [h] at hmax
    -- no write makes the buffer shorter, so all of them fit if the last one does
    rw [(hheader ⟨f.withHeader, by omega⟩).mpr rfl]
    dsimp only
    rw [(hphdrs _ ⟨f.withPhdrs, by omega⟩ rfl).mpr rfl]
    exact (hshdrs _ out rfl).mpr h

section RoundTrip

variable (bytes : Bytes) (h : WellFormed is64 E bytes)
include h

theorem encode_headerOf
    : (Ehdr.codec is64 E).encode (headerOf is64 E bytes)
        =
      slice bytes.toList 0 (Ehdr.codec is64 E).size := by
  unfold headerOf
  rw [Codec.encode_decode]
  apply length_slice
  have := h.size
  unfold Bytes.size at this
  omega

theorem withHeader_fileOf : (fileOf is64 E bytes).withHeader = bytes.toList := by
  have hsize := h.size
  unfold withHeader fileOf
  dsimp only
  rw [encode_headerOf bytes h, splice_slice]
  unfold Bytes.size at hsize
  omega

omit h in
theorem splice_tableOf {α : Type} (c : Codec α) (offset n : Nat)
    (hfit : offset + n * c.size ≤ bytes.size)
    : splice bytes.toList offset (c.encodeAll (tableOf c bytes offset n)) = bytes.toList := by
  unfold tableOf
  rw [Codec.encodeAll_decodeAll, splice_slice _ _ _ hfit]
  exact length_slice _ _ _ hfit

theorem withPhdrs_fileOf : (fileOf is64 E bytes).withPhdrs = bytes.toList := by
  unfold withPhdrs
  rw [withHeader_fileOf bytes h]
  exact splice_tableOf bytes _ _ _ h.phdrs_fit

theorem withShdrs_fileOf : (fileOf is64 E bytes).withShdrs = bytes.toList := by
  unfold withShdrs
  rw [withPhdrs_fileOf bytes h]
  exact splice_tableOf bytes _ _ _ h.shdrs_fit

theorem serialize_fileOf : (fileOf is64 E bytes).serialize = some bytes := by
  have hph := h.phdrs_fit
  have hsh := h.shdrs_fit
  rw [serialize_eq_some_iff]
  . rw [withShdrs_fileOf bytes h]
  . show (headerOf is64 E bytes).e_phoff.toNat ≤ bytes.size
    omega
  . show (headerOf is64 E bytes).e_shoff.toNat ≤ bytes.size
    omega

end RoundTrip

end ElfFile

theorem AnyElfFile.serialize_of {is64 : Bool} {E : Endian} (f : ElfFile is64 E)
    : (AnyElfFile.of f).serialize = f.serialize := by
  cases is64 <;> cases E <;> rfl

/--
An unmutated file serializes to the bytes it was parsed from, wherever its tables are.
-/
theorem serialize_of_parse (bytes : Bytes)
    : (∀ is64 E (f : ElfFile is64 E), ElfFile.parse is64 E bytes = .ok f → f.serialize = some bytes)
        ∧
      (∀ a, parseAny bytes = .ok a → a.serialize = some bytes) := by
  constructor
  . intro is64 E f h
    obtain ⟨hwf, rfl⟩ := (ElfFile.parse_eq_ok_iff bytes f).mp h
    exact ElfFile.serialize_fileOf bytes hwf
  . intro a h
    obtain ⟨is64, E, hwf, rfl⟩ := (parseAny_eq_ok_iff bytes a).mp h
    rw [AnyElfFile.serialize_of]
    exact ElfFile.serialize_fileOf bytes hwf

end Elf
end ElfCraft
