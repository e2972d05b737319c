import ElfCraft.Elf.Lemmas.PatchBytes
import ElfCraft.Elf.Lemmas.Translate

/-!
This module contains the bounds of the buffer: the region test is exact, what it lets through is inside of
the file, and which segments of a file still pass it after any sequence of calls of the mutators.
-/

namespace ElfCraft
namespace Elf

open Binary detail

variable {is64 : Bool} {E : Endian}

namespace ElfFile

theorem readAt_eq_ok_slice_iff (f : ElfFile is64 E) (offset length : BitVec 64) (bs : List Byte)
    : f.readAt offset length = .ok bs
        ↔
      offset.toNat + length.toNat ≤ f.raw.size ∧ bs = slice f.raw.toList offset.toNat length.toNat := by
  have h := readAt_eq_ok_iff f offset length.toNat bs length.isLt
  rw [BitVec.ofNat_toNat, BitVec.setWidth_eq] at h
  exact h

theorem segmentData_eq_ok_iff (f : ElfFile is64 E) (index : Nat) (ph : Phdr is64 E) (bs : List Byte)
    (hph : f.segments[index]? = some ph)
    : f.segmentData index = .ok bs
        ↔
      ph.p_offset.toNat + ph.p_filesz.toNat ≤ f.raw.size
        ∧ bs = slice f.raw.toList ph.p_offset.toNat ph.p_filesz.toNat := by
  unfold segmentData
  rw [hph]
  dsimp only
  split
  . next h =>
    rw [regionFits_bytes_iff, Nat.mul_one] at h
    simp only [Except.ok.injEq, h, true_and]
    exact eq_comm
  . next h =>
    rw [regionFits_bytes_iff, Nat.mul_one] at h
    simp [h]

end ElfFile

/--
The region test is exact in spite of its wrapping arithmetic. Behind it no element of a table can be
missed, and reads and writes of a file stay inside of the buffer.
-/
theorem detail.regionFits_exact
    : (∀ bufferSize offset count elemSize : BitVec 64,
        regionFits bufferSize.toNat offset.toNat count.toNat elemSize.toNat = true
          ↔
        offset.toNat + count.toNat * elemSize.toNat ≤ bufferSize.toNat)
      ∧ (∀ (α : Type) (c : Codec α) (bytes : Bytes) (offset count : BitVec 64),
        regionFits bytes.size offset.toNat count.toNat c.size = true →
        ∀ i < count.toNat,
          readStruct c bytes (offset + BitVec.ofNat 64 (i * c.size))
            = .ok (c.decode (slice bytes.toList (offset.toNat + i * c.size) c.size))
          ∧ offset.toNat + i * c.size + c.size ≤ bytes.size)
      ∧ ∀ (is64 : Bool) (E : Endian) (f : ElfFile is64 E),
        (∀ (offset length : BitVec 64) (bs : List Byte),
          f.readAt offset length = .ok bs
            ↔
          offset.toNat + length.toNat ≤ f.raw.size
            ∧ bs = slice f.raw.toList offset.toNat length.toNat)
        ∧ (∀ (index : Nat) (ph : Phdr is64 E) (bs : List Byte), f.segments[index]? = some ph →
          (f.segmentData index = .ok bs
            ↔
          ph.p_offset.toNat + ph.p_filesz.toNat ≤ f.raw.size
            ∧ bs = slice f.raw.toList ph.p_offset.toNat ph.p_filesz.toNat))
        ∧ ∀ (offset : BitVec 64) (newBytes : List Byte) (g : ElfFile is64 E),
          f.patchBytesAt offset newBytes = .ok g →
          offset.toNat + newBytes.length ≤ f.raw.size
            ∧ g.raw.toList = splice f.raw.toList offset.toNat newBytes := by
  refine ⟨?_, ?_, ?_⟩
  . intro bufferSize offset count elemSize
    exact regionFits_iff _ _ _ _ bufferSize.isLt
  . intro α c bytes offset count hfits i hi
    rw [regionFits_bytes_iff] at hfits
    have hsize := bytes.size_lt
    have hle : (i + 1) * c.size ≤ count.toNat * c.size := Nat.mul_le_mul_right _ hi
    rw [Nat.succ_mul] at hle
    have hoff := toNat_add_ofNat offset (i * c.size) (by omega)
    refine ⟨?_, by omega⟩
    rw [readStruct_of_le c bytes _ (by omega), hoff]
  . intro is64 E f
    refine ⟨f.readAt_eq_ok_slice_iff, f.segmentData_eq_ok_iff, ?_⟩
    intro offset newBytes g hpatch
    obtain ⟨raw, hwrite, rfl⟩ := (ElfFile.patchBytesAt_eq_ok_iff f g offset newBytes).mp hpatch
    exact (Bytes.write_eq_some_iff f.raw raw offset.toNat newBytes).mp hwrite

/-
Runs of the mutators: the file only grows, and the segments that are new lie inside of it.
-/

-- How many bytes a call appends.
def Mutation.growth (mutation : Mutation) : Nat :=
  match mutation with
  | .addLoadSegment call => call.data.length
  | _ => 0

def growth (mutations : List Mutation) : Nat := (mutations.map Mutation.growth).sum

namespace ElfFile

def mutates (f : ElfFile is64 E) (mutations : List Mutation) : Option (ElfFile is64 E) :=
  mutations.foldlM mutate f

/--
`g` is `f` with `n` more bytes and with segments that are backed by the file.
-/
structure Grown (f g : ElfFile is64 E) (n : Nat) : Prop where
  size : g.raw.size = f.raw.size + n
  segments : ∃ news, g.segments = f.segments ++ news
    ∧ ∀ ph ∈ news, ph.p_offset.toNat + ph.p_filesz.toNat ≤ g.raw.size

theorem Grown.refl (f : ElfFile is64 E) : Grown f f 0 where
  size := rfl
  segments := ⟨[], (List.append_nil _).symm, by simp⟩

theorem Grown.trans {f g k : ElfFile is64 E} {n n' : Nat} (h : Grown f g n) (h' : Grown g k n')
    : Grown f k (n + n') := by
  obtain ⟨news, hnews, hfit⟩ := h.segments
  obtain ⟨news', hnews', hfit'⟩ := h'.segments
  have hsize := h'.size
  constructor
  . rw [h'.size, h.size, Nat.add_assoc]
  . refine ⟨news ++ news', ?_, ?_⟩
    . rw [hnews', hnews, List.append_assoc]
    . intro ph hph
      rcases List.mem_append.mp hph with hmem | hmem
      . have := hfit ph hmem
        omega
      . exact hfit' ph hmem

theorem nextPhdr_fits (f : ElfFile is64 E) (call : LoadSegment)
    : (f.nextPhdr call).p_offset.toNat + (f.nextPhdr call).p_filesz.toNat ≤ f.raw.size + call.data.length := by
  have hoffset : (f.nextPhdr call).p_offset.toNat ≤ (BitVec.ofNat 64 f.raw.size).toNat := by
    apply Phdr.p_offset_load_le
  have hfilesz : (f.nextPhdr call).p_filesz.toNat ≤ (BitVec.ofNat 64 call.data.length).toNat := by
    apply Phdr.p_filesz_load_le
  rw [BitVec.toNat_ofNat] at hoffset hfilesz
  have := Nat.mod_le f.raw.size (2 ^ 64)
  have := Nat.mod_le call.data.length (2 ^ 64)
  omega

theorem Grown.mutate {f g : ElfFile is64 E} (mutation : Mutation) (h : f.mutate mutation = some g)
    : Grown f g mutation.growth := by
  cases mutation with
  | setEntry addr =>
    rw [← Option.some.inj h]
    exact ⟨rfl, [], (List.append_nil _).symm, by simp⟩
  | patchBytesAt offset newBytes =>
    simp only [ElfFile.mutate] at h
    cases hpatch : f.patchBytesAt offset newBytes with
    | error e =>
      rw [hpatch] at h
      rw [← Option.some.inj h]
      exact .refl f
    | ok f' =>
      rw [hpatch] at h
      rw [← Option.some.inj h]
      obtain ⟨raw, hwrite, rfl⟩ := (patchBytesAt_eq_ok_iff f f' offset newBytes).mp hpatch
      obtain ⟨hfits, hraw⟩ := (Bytes.write_eq_some_iff _ _ _ _).mp hwrite
      refine ⟨?_, [], (List.append_nil _).symm, by simp⟩
      unfold Bytes.size at *
      dsimp only
      rw [hraw, length_splice _ _ _ hfits]
      rfl
  | addLoadSegment call =>
    have hsize : g.raw.size = f.raw.size + call.data.length := size_load f g call h
    obtain ⟨raw, -, rfl⟩ := (addLoadSegment_eq_some_iff f g call).mp h
    refine ⟨hsize, [f.nextPhdr call], rfl, ?_⟩
    intro ph hph
    rw [List.mem_singleton.mp hph, hsize]
    apply nextPhdr_fits

theorem Grown.mutates {f g : ElfFile is64 E} (mutations : List Mutation) (h : f.mutates mutations = some g)
    : Grown f g (growth mutations) := by
  induction mutations generalizing f with
  | nil =>
    rw [← Option.some.inj h]
    exact .refl f
  | cons mutation mutations ih =>
    rw [ElfFile.mutates, List.foldlM_cons, Option.bind_eq_bind, Option.bind_eq_some_iff] at h
    obtain ⟨f', hstep, hrest⟩ := h
    exact (Grown.mutate mutation hstep).trans (ih hrest)

/--
Every segment of the file can be read in its whole length.
-/
def SegmentsReadable (f : ElfFile is64 E) : Prop :=
  ∀ index ph, f.segments[index]? = some ph →
    ∃ bs, f.segmentData index = .ok bs ∧ bs = slice f.raw.toList ph.p_offset.toNat ph.p_filesz.toNat
      ∧ bs.length = ph.p_filesz.toNat

theorem segmentsReadable_iff (f : ElfFile is64 E)
    : f.SegmentsReadable ↔ ∀ ph ∈ f.segments, ph.p_offset.toNat + ph.p_filesz.toNat ≤ f.raw.size := by
  constructor
  . intro h ph hph
    obtain ⟨index, hget⟩ := List.getElem?_of_mem hph
    obtain ⟨bs, hbs, -⟩ := h index ph hget
    exact ((f.segmentData_eq_ok_iff index ph bs hget).mp hbs).left
  . intro h index ph hget
    have hfits := h ph (List.mem_of_getElem? hget)
    refine ⟨_, (f.segmentData_eq_ok_iff index ph _ hget).mpr ⟨hfits, rfl⟩, rfl, ?_⟩
    exact length_slice _ _ _ hfits

/--
Segments of the input that reach behind its end can not be read before the file has grown over them. The
parser never compares a segment with the file.
-/
theorem segmentsReadable_mutates_iff (bytes : Bytes) (f g : ElfFile is64 E) (mutations : List Mutation)
    (hparse : parse is64 E bytes = .ok f) (hrun : f.mutates mutations = some g)
    : g.SegmentsReadable
        ↔
      ∀ ph ∈ f.segments, ph.p_offset.toNat + ph.p_filesz.toNat ≤ bytes.size + growth mutations := by
  obtain ⟨-, rfl⟩ := (parse_eq_ok_iff bytes f).mp hparse
  have hgrown := Grown.mutates mutations hrun
  have hsize : g.raw.size = bytes.size + growth mutations := hgrown.size
  obtain ⟨news, hsegments, hnews⟩ := hgrown.segments
  rw [segmentsReadable_iff, hsegments, List.forall_mem_append, hsize] at *
  exact ⟨fun h => h.left, fun h => ⟨h, hnews⟩⟩

-- The segment is the whole file.
def wholeSample : Bytes := ⟨loadsSample [(0, 0x10000, 0x78)], by decide +kernel⟩

theorem parse_wholeSample : parse true .Big wholeSample = .ok (fileOf true .Big wholeSample) := by
  apply parse_of_wellFormed
  constructor <;> decide +kernel

theorem isSome_mutates_wholeSample
    : ((fileOf true .Big wholeSample).mutates
        [.addLoadSegment fourBytes, .patchBytesAt 0x78 [0x4E], .setEntry 0x10000]).isSome := by
  decide +kernel

theorem segmentsReadable_mutates_wholeSample
    : (((fileOf true .Big wholeSample).mutates
        [.addLoadSegment fourBytes, .patchBytesAt 0x78 [0x4E], .setEntry 0x10000]).get
          isSome_mutates_wholeSample).SegmentsReadable := by
  apply (segmentsReadable_mutates_iff wholeSample _ _ _ parse_wholeSample (Option.some_get _).symm).mpr
  decide +kernel

/--
A segment that is longer than the file passes the parser.
-/
theorem segmentsReadable_longSample
    : ¬ ∀ (f g : ElfFile true .Big) (mutations : List Mutation),
        parse true .Big longSample = .ok f → f.mutates mutations = some g → g.SegmentsReadable := by
  intro h
  have hwf : WellFormed true .Big longSample := by
    constructor <;> decide +kernel
  have hread := (segmentsReadable_iff _).mp (h _ _ [] (parse_of_wellFormed _ hwf) rfl)
  revert hread
  decide +kernel

end ElfFile

end Elf
end ElfCraft
