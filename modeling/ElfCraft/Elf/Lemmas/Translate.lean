import ElfCraft.Elf.Lemmas.AddLoadSegment
import ElfCraft.Elf.Lemmas.Lookup

/-!
This module contains the translation of virtual addresses in every file that the parser and the mutators
lead to: which results are backed by the file, which addresses are missed and what appending a segment
changes.
-/

namespace ElfCraft
namespace Elf

open Binary

variable {is64 : Bool} {E : Endian}

-- A call of one of the mutators of a file.
inductive Mutation where
  | setEntry (addr : BitVec 64)
  | patchBytesAt (offset : BitVec 64) (newBytes : List Byte)
  | addLoadSegment (call : LoadSegment)
  deriving DecidableEq

namespace ElfFile

-- A call that returns an error leaves the file as it is.
def mutate (f : ElfFile is64 E) (mutation : Mutation) : Option (ElfFile is64 E) :=
  match mutation with
  | .setEntry addr => some (f.setEntry addr)
  | .patchBytesAt offset newBytes =>
    match f.patchBytesAt offset newBytes with
    | .ok f' => some f'
    | .error _ => some f
  | .addLoadSegment call => f.load call

/--
The files that parsing and any sequence of calls lead to.
-/
inductive Reachable : ElfFile is64 E → Prop where
  | parse (bytes : Bytes) (f : ElfFile is64 E) : parse is64 E bytes = .ok f → Reachable f
  | mutate (f f' : ElfFile is64 E) (mutation : Mutation) :
    Reachable f → f.mutate mutation = some f' → Reachable f'

end ElfFile

/-
The file backed range of a segment over the natural numbers.
-/

namespace Phdr

def fileEnd (ph : Phdr is64 E) : Nat := ph.p_vaddr.toNat + ph.p_filesz.toNat

def Contains (ph : Phdr is64 E) (a : Nat) : Prop :=
  ph.p_type = PT_LOAD ∧ ph.p_vaddr.toNat ≤ a ∧ a < ph.fileEnd

-- Where an address of the range is in the file.
def place (ph : Phdr is64 E) (a : Nat) : Nat := ph.p_offset.toNat + (a - ph.p_vaddr.toNat)

instance (ph : Phdr is64 E) (a : Nat) : Decidable (ph.Contains a) := by
  unfold Contains
  infer_instance

/--
The test of the loop misses the segments whose end does not fit into 64 bits, one of them may end at the
top of the address space.
-/
theorem covers_iff (ph : Phdr is64 E) (vaddr : BitVec 64)
    : ph.covers vaddr = true ↔ ph.Contains vaddr.toNat ∧ ph.fileEnd < 2 ^ 64 := by
  have hvaddr := vaddr.isLt
  have hstart := ph.p_vaddr.isLt
  have hsize := ph.p_filesz.isLt
  unfold covers Contains fileEnd
  rw [decide_eq_true_eq, BitVec.le_def, BitVec.lt_def, BitVec.toNat_add]
  constructor
  . rintro ⟨htype, hle, hlt⟩
    refine ⟨⟨htype, hle, ?_⟩, ?_⟩
    . omega
    . omega
  . rintro ⟨⟨htype, hle, hlt⟩, hend⟩
    refine ⟨htype, hle, ?_⟩
    omega

theorem toNat_found (ph : Phdr is64 E) (vaddr : BitVec 64) (h : ph.covers vaddr = true)
    : (ElfFile.found ph vaddr).toNat = ph.place vaddr.toNat % 2 ^ 64 := by
  have hvaddr := vaddr.isLt
  obtain ⟨⟨-, hle, -⟩, -⟩ := (covers_iff ph vaddr).mp h
  unfold ElfFile.found place
  rw [BitVec.toNat_add, BitVec.toNat_sub]
  omega

end Phdr

namespace ElfFile

-- The segment that decides over an address.
def firstMatch (f : ElfFile is64 E) (a : Nat) : Option (Phdr is64 E) :=
  f.segments.find? fun ph => decide (ph.Contains a ∧ ph.fileEnd < 2 ^ 64)

theorem find?_covers (f : ElfFile is64 E) (vaddr : BitVec 64)
    : f.segments.find? (Phdr.covers vaddr) = f.firstMatch vaddr.toNat := by
  unfold firstMatch
  congr 1
  funext ph
  rw [Bool.eq_iff_iff, Phdr.covers_iff, decide_eq_true_eq]

theorem firstMatch_spec (f : ElfFile is64 E) (a : Nat) (first : Phdr is64 E)
    (h : f.firstMatch a = some first)
    : first ∈ f.segments ∧ first.Contains a ∧ first.fileEnd < 2 ^ 64 := by
  have hsome := List.find?_some h
  rw [decide_eq_true_eq] at hsome
  exact ⟨List.mem_of_find?_eq_some h, hsome⟩

theorem vaddrToFileOffset_eq_ok_iff_place (f : ElfFile is64 E) (vaddr offset : BitVec 64)
    : f.vaddrToFileOffset vaddr = .ok offset
        ↔
      ∃ first, f.firstMatch vaddr.toNat = some first
        ∧ offset.toNat = first.place vaddr.toNat % 2 ^ 64 ∧ offset.toNat ≤ f.raw.size := by
  rw [vaddrToFileOffset_eq_ok_iff, find?_covers]
  have hfound (first : Phdr is64 E) (hfirst : f.firstMatch vaddr.toNat = some first)
      : (found first vaddr).toNat = first.place vaddr.toNat % 2 ^ 64 := by
    apply Phdr.toNat_found
    rw [Phdr.covers_iff]
    exact (firstMatch_spec f _ first hfirst).right
  constructor
  . rintro ⟨first, hfirst, hoffset, hle⟩
    refine ⟨first, hfirst, ?_, hle⟩
    rw [hoffset, hfound first hfirst]
  . rintro ⟨first, hfirst, hoffset, hle⟩
    refine ⟨first, hfirst, ?_, hle⟩
    apply BitVec.eq_of_toNat_eq
    rw [hoffset, hfound first hfirst]

theorem vaddrToFileOffset_isOk_iff (f : ElfFile is64 E) (vaddr : BitVec 64)
    : (∃ offset, f.vaddrToFileOffset vaddr = .ok offset)
        ↔
      ∃ first, f.firstMatch vaddr.toNat = some first
        ∧ first.place vaddr.toNat % 2 ^ 64 ≤ f.raw.size := by
  constructor
  . rintro ⟨offset, hoffset⟩
    rw [vaddrToFileOffset_eq_ok_iff_place] at hoffset
    obtain ⟨first, hfirst, hplace, hle⟩ := hoffset
    exact ⟨first, hfirst, by omega⟩
  . rintro ⟨first, hfirst, hle⟩
    refine ⟨BitVec.ofNat 64 (first.place vaddr.toNat), ?_⟩
    rw [vaddrToFileOffset_eq_ok_iff_place]
    refine ⟨first, hfirst, ?_, ?_⟩
    . rw [BitVec.toNat_ofNat]
    . rw [BitVec.toNat_ofNat]
      exact hle

/--
A segment maps the address to the offset and the file has a byte there.
-/
def Backed (f : ElfFile is64 E) (a o : Nat) : Prop :=
  ∃ ph ∈ f.segments, ph.Contains a ∧ o = ph.place a ∧ o < f.raw.size

theorem readAt_one_isOk_iff (f : ElfFile is64 E) (offset : BitVec 64)
    : (f.readAt offset 1).isOk = true ↔ offset.toNat < f.raw.size := by
  unfold readAt
  split
  . next h =>
    rw [detail.regionFits_bytes_iff, Nat.mul_one] at h
    exact ⟨fun _ => h, fun _ => rfl⟩
  . next h =>
    rw [detail.regionFits_bytes_iff, Nat.mul_one] at h
    exact ⟨fun hok => Bool.noConfusion hok, fun hlt => absurd hlt h⟩

/--
A file of a header and one PT_LOAD header for each offset, address and size.
-/
def loadsSample (loads : List (BitVec 64 × BitVec 64 × BitVec 64)) : List Byte :=
  let header : Elf64_Ehdr .Big :=
    { e_ident := fun i => [0x7F, 0x45, 0x4C, 0x46, 0x02, 0x02, 0x01].getD i.val 0
      e_type := .set 2, e_machine := .set EM_PPC64, e_version := .set 1
      e_entry := .set 0, e_phoff := .set 64, e_shoff := .set 0, e_flags := .set 0
      e_ehsize := .set 64, e_phentsize := .set 56, e_phnum := .set (BitVec.ofNat 16 loads.length)
      e_shentsize := .set 64, e_shnum := .set 0, e_shstrndx := .set 0 }
  let phdrs := loads.map fun (offset, vaddr, filesz) =>
    ({ p_type := .set PT_LOAD, p_flags := .set PF_R, p_offset := .set offset
       p_vaddr := .set vaddr, p_paddr := .set vaddr, p_filesz := .set filesz
       p_memsz := .set filesz, p_align := .set 0x10000 } : Elf64_Phdr .Big)
  (Elf64_Ehdr.codec .Big).encode header ++ (Elf64_Phdr.codec .Big).encodeAll phdrs

theorem reachable_of_wellFormed (bytes : Bytes) (h : WellFormed is64 E bytes)
    : (fileOf is64 E bytes).Reachable := by
  apply Reachable.parse bytes
  apply parse_of_wellFormed bytes h

-- The segment is longer than the file, which has 120 bytes.
def longSample : Bytes := ⟨loadsSample [(0, 0x10000, 0x1000)], by decide +kernel⟩

theorem reachable_longSample : (fileOf true .Big longSample).Reachable := by
  apply reachable_of_wellFormed
  constructor <;> decide +kernel

theorem firstMatch_longSample
    : ∃ first, (fileOf true .Big longSample).firstMatch (0x10000 : BitVec 64).toNat = some first
        ∧ first.place (0x10000 : BitVec 64).toNat = 0 := by
  rw [← Option.map_eq_some_iff]
  decide +kernel

/--
A result is backed by the file exactly when the deciding segment has the address inside of the file, or
when another one has it where the carry out of `p_offset + delta` leads to.
-/
theorem vaddrToFileOffset_backed_iff
    : ∀ f : ElfFile is64 E, f.Reachable →
        ∀ vaddr offset : BitVec 64, f.vaddrToFileOffset vaddr = .ok offset →
          (f.Backed vaddr.toNat offset.toNat ∧ (f.readAt offset 1).isOk = true
            ↔
          ∃ first, f.firstMatch vaddr.toNat = some first
            ∧ (first.place vaddr.toNat < f.raw.size
              ∨ ∃ ph ∈ f.segments, ph.Contains vaddr.toNat ∧ ph.place vaddr.toNat < f.raw.size
                ∧ first.place vaddr.toNat = ph.place vaddr.toNat + 2 ^ 64)) := by
  intro f _ vaddr offset hlookup
  rw [vaddrToFileOffset_eq_ok_iff_place] at hlookup
  obtain ⟨first, hfirst, hoffset, hle⟩ := hlookup
  obtain ⟨hmem, hcontains, -⟩ := firstMatch_spec f _ first hfirst
  have hsize := f.raw.size_lt
  have hplace : first.place vaddr.toNat < 2 * 2 ^ 64 := by
    have := first.p_offset.isLt
    have := vaddr.isLt
    unfold Phdr.place
    omega
  rw [readAt_one_isOk_iff]
  constructor
  . rintro ⟨⟨ph, hph, hin, heq, hlt⟩, -⟩
    refine ⟨first, hfirst, ?_⟩
    rcases Nat.lt_or_ge (first.place vaddr.toNat) (2 ^ 64) with hsmall | hbig
    . left
      omega
    . right
      refine ⟨ph, hph, hin, ?_, ?_⟩
      . omega
      . omega
  . rintro ⟨first', hfirst', hcase⟩
    rw [hfirst, Option.some.injEq] at hfirst'
    rw [← hfirst'] at hcase
    rcases hcase with hlt | ⟨ph, hph, hin, hlt, heq⟩
    . refine ⟨⟨first, hmem, hcontains, ?_, ?_⟩, ?_⟩
      . omega
      . omega
      . omega
    . refine ⟨⟨ph, hph, hin, ?_, ?_⟩, ?_⟩
      . omega
      . omega
      . omega

theorem vaddrToFileOffset_backed_longSample
    : (fileOf true .Big longSample).Backed 0x10000 0
        ∧ ((fileOf true .Big longSample).readAt 0 1).isOk = true := by
  have hlookup : (fileOf true .Big longSample).vaddrToFileOffset 0x10000 = .ok 0 := by
    decide +kernel
  apply (vaddrToFileOffset_backed_iff _ reachable_longSample 0x10000 0 hlookup).mpr
  obtain ⟨first, hfirst, hplace⟩ := firstMatch_longSample
  refine ⟨first, hfirst, .inl ?_⟩
  rw [hplace]
  decide +kernel

/--
The end of the file is no offset of a byte.
-/
theorem vaddrToFileOffset_not_backed_longSample
    : ¬ ∀ f : ElfFile true .Big, f.Reachable →
        ∀ vaddr offset : BitVec 64, f.vaddrToFileOffset vaddr = .ok offset →
          f.Backed vaddr.toNat offset.toNat ∧ (f.readAt offset 1).isOk = true := by
  intro h
  have hlookup : (fileOf true .Big longSample).vaddrToFileOffset 0x10078 = .ok 0x78 := by
    decide +kernel
  have hread : ((fileOf true .Big longSample).readAt 0x78 1).isOk = false := by
    decide +kernel
  obtain ⟨-, hok⟩ := h _ reachable_longSample _ _ hlookup
  rw [hread] at hok
  exact Bool.false_ne_true hok

/--
An address that some segment has inside of the file is found exactly when a segment that contains it ends
below the top of the address space and the first of them has it inside of the file or right behind.
-/
theorem vaddrToFileOffset_complete_iff
    : ∀ f : ElfFile is64 E, f.Reachable →
        ∀ vaddr : BitVec 64,
          (∃ ph ∈ f.segments, ph.Contains vaddr.toNat ∧ ph.fileEnd ≤ 2 ^ 64
            ∧ ph.place vaddr.toNat < f.raw.size) →
          ((∃ offset, f.vaddrToFileOffset vaddr = .ok offset)
            ↔
          ∃ first, f.firstMatch vaddr.toNat = some first
            ∧ first.place vaddr.toNat % 2 ^ 64 ≤ f.raw.size) := by
  intro f _ vaddr _
  apply vaddrToFileOffset_isOk_iff

theorem vaddrToFileOffset_complete_longSample
    : ∃ offset, (fileOf true .Big longSample).vaddrToFileOffset 0x10000 = .ok offset := by
  apply (vaddrToFileOffset_complete_iff _ reachable_longSample 0x10000 ?_).mpr
  . obtain ⟨first, hfirst, hplace⟩ := firstMatch_longSample
    refine ⟨first, hfirst, ?_⟩
    rw [hplace]
    decide +kernel
  . decide +kernel

-- The segment ends at the top of the address space.
def topSample : Bytes := ⟨loadsSample [(0, 0xFFFFFFFFFFFFF000, 0x1000)], by decide +kernel⟩

-- The bytes of the first segment are missing.
def shadowedSample : Bytes :=
  ⟨loadsSample [(0x1000, 0x10000, 0x1000), (0, 0x10000, 0x1000)], by decide +kernel⟩

-- What the translation would do if it found every address that the file backs.
def Complete (f : ElfFile is64 E) : Prop :=
  ∀ vaddr : BitVec 64,
    (∃ ph ∈ f.segments, ph.Contains vaddr.toNat ∧ ph.fileEnd ≤ 2 ^ 64
      ∧ ph.place vaddr.toNat < f.raw.size) →
    ∃ offset, f.vaddrToFileOffset vaddr = .ok offset

theorem vaddrToFileOffset_incomplete
    : ((fileOf true .Big topSample).Reachable ∧ ¬ (fileOf true .Big topSample).Complete)
        ∧
      ((fileOf true .Big shadowedSample).Reachable ∧ ¬ (fileOf true .Big shadowedSample).Complete) := by
  have htop : ((fileOf true .Big topSample).vaddrToFileOffset 0xFFFFFFFFFFFFF000).isOk = false := by
    decide +kernel
  have hshadowed : ((fileOf true .Big shadowedSample).vaddrToFileOffset 0x10000).isOk = false := by
    decide +kernel
  refine ⟨⟨?_, ?_⟩, ⟨?_, ?_⟩⟩
  . apply reachable_of_wellFormed
    constructor <;> decide +kernel
  . intro h
    obtain ⟨offset, hoffset⟩ := h 0xFFFFFFFFFFFFF000 (by decide +kernel)
    rw [hoffset] at htop
    exact Bool.false_ne_true htop.symm
  . apply reachable_of_wellFormed
    constructor <;> decide +kernel
  . intro h
    obtain ⟨offset, hoffset⟩ := h 0x10000 (by decide +kernel)
    rw [hoffset] at hshadowed
    exact Bool.false_ne_true hshadowed.symm

/-
Appending a segment.
-/

theorem not_contains_nextPhdr (f : ElfFile true E) (call : LoadSegment) (vaddr : BitVec 64)
    (h : vaddr.toNat < call.vaddr.toNat ∨ call.vaddr.toNat + call.data.length ≤ vaddr.toNat)
    : ¬ (f.nextPhdr call).Contains vaddr.toNat := by
  rintro ⟨-, hle, hlt⟩
  have hvaddr : (f.nextPhdr call).p_vaddr = call.vaddr := by
    apply Phdr.p_vaddr_load
    exact call.vaddr.isLt
  have hfilesz : (f.nextPhdr call).p_filesz.toNat ≤ call.data.length := by
    unfold nextPhdr
    rw [Phdr.p_filesz_load _ _ _ _ _ (by exact BitVec.isLt _), BitVec.toNat_ofNat]
    apply Nat.mod_le
  unfold Phdr.fileEnd at hlt
  rw [hvaddr] at hle hlt
  omega

theorem firstMatch_load (f g : ElfFile true E) (call : LoadSegment) (vaddr : BitVec 64)
    (hload : f.load call = some g)
    (h : vaddr.toNat < call.vaddr.toNat ∨ call.vaddr.toNat + call.data.length ≤ vaddr.toNat)
    : g.firstMatch vaddr.toNat = f.firstMatch vaddr.toNat := by
  have hnew := not_contains_nextPhdr f call vaddr h
  obtain ⟨raw, -, rfl⟩ := (addLoadSegment_eq_some_iff f g call).mp hload
  unfold firstMatch
  rw [List.find?_append, List.find?_cons_of_neg, List.find?_nil, Option.or_none]
  rw [decide_eq_true_eq]
  exact fun hin => hnew hin.left

theorem size_load (f g : ElfFile is64 E) (call : LoadSegment) (hload : f.load call = some g)
    : g.raw.size = f.raw.size + call.data.length := by
  obtain ⟨raw, hraw, rfl⟩ := (addLoadSegment_eq_some_iff f g call).mp hload
  rw [Bytes.append_eq_some_iff] at hraw
  unfold Bytes.size
  rw [hraw, List.length_append]

theorem vaddrToFileOffset_load {f g : ElfFile true E} {call : LoadSegment} {vaddr : BitVec 64}
    (hload : f.load call = some g)
    (hout : vaddr.toNat < call.vaddr.toNat ∨ call.vaddr.toNat + call.data.length ≤ vaddr.toNat)
    (offset : BitVec 64)
    : g.vaddrToFileOffset vaddr = .ok offset
        ↔
      f.vaddrToFileOffset vaddr = .ok offset
        ∨ (f.raw.size < offset.toNat ∧ offset.toNat ≤ f.raw.size + call.data.length
          ∧ ∃ first, f.firstMatch vaddr.toNat = some first
            ∧ offset.toNat = first.place vaddr.toNat % 2 ^ 64) := by
  rw [vaddrToFileOffset_eq_ok_iff_place, vaddrToFileOffset_eq_ok_iff_place,
    firstMatch_load f g call vaddr hload hout, size_load f g call hload]
  constructor
  . rintro ⟨first, hfirst, hplace, hle⟩
    rcases Nat.lt_or_ge f.raw.size offset.toNat with hlt | hge
    . right
      exact ⟨hlt, hle, first, hfirst, hplace⟩
    . left
      exact ⟨first, hfirst, hplace, hge⟩
  . rintro (⟨first, hfirst, hplace, hle⟩ | ⟨-, hle, first, hfirst, hplace⟩)
    . exact ⟨first, hfirst, hplace, by omega⟩
    . exact ⟨first, hfirst, hplace, hle⟩

/--
The segment that decides about the address places it behind the end of the file, but not behind the end of
one that has `more` bytes.
-/
def OvergrownBy (f : ElfFile is64 E) (more a : Nat) : Prop :=
  ∃ first, f.firstMatch a = some first
    ∧ f.raw.size < first.place a % 2 ^ 64 ∧ first.place a % 2 ^ 64 ≤ f.raw.size + more

/--
An address outside of the appended segment is translated as before exactly when its byte was not behind the
end of a file that has grown over it.
-/
theorem vaddrToFileOffset_load_iff
    : ∀ f : ElfFile true E, f.Reachable →
        ∀ (call : LoadSegment) (g : ElfFile true E), f.load call = some g →
          call.vaddr.toNat + call.data.length ≤ 2 ^ 64 →
          ∀ vaddr : BitVec 64,
            vaddr.toNat < call.vaddr.toNat ∨ call.vaddr.toNat + call.data.length ≤ vaddr.toNat →
            ((∀ offset, g.vaddrToFileOffset vaddr = .ok offset ↔ f.vaddrToFileOffset vaddr = .ok offset)
                ↔
              ¬ f.OvergrownBy call.data.length vaddr.toNat)
              ∧
            ∀ offset,
              (g.vaddrToFileOffset vaddr = .ok offset
                ↔
              f.vaddrToFileOffset vaddr = .ok offset
                ∨ (f.raw.size < offset.toNat ∧ offset.toNat ≤ f.raw.size + call.data.length
                  ∧ ∃ first, f.firstMatch vaddr.toNat = some first
                    ∧ offset.toNat = first.place vaddr.toNat % 2 ^ 64)) := by
  intro f _ call g hload _ vaddr hout
  have hafter := vaddrToFileOffset_load hload hout
  refine ⟨?_, hafter⟩
  constructor
  . rintro hsame ⟨first, hfirst, hlt, hle⟩
    have hoffset : (BitVec.ofNat 64 (first.place vaddr.toNat)).toNat = first.place vaddr.toNat % 2 ^ 64 := by
      apply BitVec.toNat_ofNat
    have hbefore := (hsame (BitVec.ofNat 64 (first.place vaddr.toNat))).mp
      ((hafter _).mpr (.inr ⟨by omega, by omega, first, hfirst, hoffset⟩))
    rw [vaddrToFileOffset_eq_ok_iff_place] at hbefore
    obtain ⟨-, -, -, hsize⟩ := hbefore
    omega
  . intro hnot offset
    rw [hafter]
    constructor
    . rintro (hbefore | ⟨hlt, hle, first, hfirst, hoffset⟩)
      . exact hbefore
      . exact absurd ⟨first, hfirst, by omega, by omega⟩ hnot
    . exact .inl

-- The first byte of the segment is 4 bytes behind the end of the file.
def behindSample : Bytes := ⟨loadsSample [(0x7C, 0x10000, 0x1000)], by decide +kernel⟩

def fourBytesBehind : LoadSegment := { fourBytes with vaddr := 0x20000 }

theorem reachable_behindSample : (fileOf true .Big behindSample).Reachable := by
  apply reachable_of_wellFormed
  constructor <;> decide +kernel

theorem isSome_load_behindSample
    : ((fileOf true .Big behindSample).load fourBytesBehind).isSome := by
  decide +kernel

theorem vaddrToFileOffset_load_behindSample
    : (((fileOf true .Big behindSample).load fourBytesBehind).get isSome_load_behindSample).vaddrToFileOffset
        0x10000 = .ok 0x7C := by
  have hfirst : ((fileOf true .Big behindSample).firstMatch (0x10000 : BitVec 64).toNat).map
      (fun first => first.place (0x10000 : BitVec 64).toNat % 2 ^ 64) = some 0x7C := by
    decide +kernel
  obtain ⟨first, hfirst, hplace⟩ := Option.map_eq_some_iff.mp hfirst
  apply ((vaddrToFileOffset_load_iff _ reachable_behindSample fourBytesBehind _ (Option.some_get _).symm
    (by decide) 0x10000 (.inl (by decide))).right 0x7C).mpr
  right
  refine ⟨?_, ?_, first, hfirst, hplace.symm⟩
  . decide +kernel
  . decide +kernel

/--
The address gets resolved into the bytes that were appended for another one.
-/
theorem vaddrToFileOffset_load_changes
    : ¬ ∀ f : ElfFile true .Big, f.Reachable →
        ∀ (call : LoadSegment) (g : ElfFile true .Big), f.load call = some g →
          call.vaddr.toNat + call.data.length ≤ 2 ^ 64 →
          ∀ vaddr : BitVec 64,
            vaddr.toNat < call.vaddr.toNat ∨ call.vaddr.toNat + call.data.length ≤ vaddr.toNat →
            ∀ offset, g.vaddrToFileOffset vaddr = .ok offset ↔ f.vaddrToFileOffset vaddr = .ok offset := by
  intro h
  have hbefore : ((fileOf true .Big behindSample).vaddrToFileOffset 0x10000).isOk = false := by
    decide +kernel
  have hafter : (((fileOf true .Big behindSample).load fourBytesBehind).get
      isSome_load_behindSample).vaddrToFileOffset 0x10000 = .ok 0x7C := by
    decide +kernel
  have hsame := (h _ reachable_behindSample fourBytesBehind _ (Option.some_get _).symm (by decide) 0x10000
    (.inl (by decide)) 0x7C).mp hafter
  rw [hsame] at hbefore
  exact Bool.false_ne_true hbefore.symm

end ElfFile

end Elf
end ElfCraft
