import ElfCraft.Binary.Copied
import ElfCraft.Ps3patch.Lemmas.Alike

/-!
This module contains runs on inputs that only differ in bytes that the tool does not look at. They are payload:
they decide nothing and are copied into the output at most.
-/

namespace ElfCraft
namespace Ps3patch

open Binary Elf ElfFile Ppc Exec detail

/--
The offsets that are looked at: the headers, the descriptor of the entry point, where a magic could be and the
window that the jump displaces.
-/
inductive Inspected (file : Ps3ElfFile) : Nat → Prop where
  | header (i : Nat) (hi : i < 64) : Inspected file i
  | segments (i : Nat) (hlower : file.header.e_phoff.toNat ≤ i)
      (hupper : i < file.header.e_phoff.toNat + file.header.e_phnum.toNat * 56)
      : Inspected file i
  | sections (i : Nat) (hlower : file.header.e_shoff.toNat ≤ i)
      (hupper : i < file.header.e_shoff.toNat + file.header.e_shnum.toNat * 64)
      : Inspected file i
  | descriptor (offset : BitVec 64) (hoffset : file.vaddrToFileOffset file.entry = .ok offset) (i : Nat)
      (hlower : offset.toNat ≤ i) (hupper : i < offset.toNat + 8)
      : Inspected file i
  | magic (ph : Phdr true .Big) (hph : ph ∈ file.segments) (hload : ph.p_type = PT_LOAD)
      (hfilesz : TRAMPOLINE_MAGIC.length ≤ ph.p_filesz.toNat) (i : Nat)
      (hlower : ph.p_offset.toNat ≤ i) (hupper : i < ph.p_offset.toNat + TRAMPOLINE_MAGIC.length)
      : Inspected file i
  | window (entry : EntryDescriptor) (hentry : resolveEntryDescriptor file = .ok entry) (offset : BitVec 64)
      (hoffset : file.vaddrToFileOffset entry.codeAddress = .ok offset) (i : Nat)
      (hlower : offset.toNat ≤ i) (hupper : i < offset.toNat + displaced entry (pickTrampolineAddr file) * 4)
      : Inspected file i

section Agree

variable {bytes bytes' : Bytes} (hwf : WellFormed true .Big bytes)
variable (hagree : AgreeOn (Inspected (fileOf true .Big bytes)) bytes.toList bytes'.toList)
include hwf hagree

omit hwf in
theorem size_of_agree : bytes'.size = bytes.size := by
  exact hagree.left

omit hwf in
theorem headerOf_of_agree : headerOf true .Big bytes' = headerOf true .Big bytes := by
  unfold headerOf
  rw [hagree.slice_eq]
  intro i _ hi
  apply Inspected.header
  rw [Nat.zero_add] at hi
  exact hi

theorem wellFormed_of_agree : WellFormed true .Big bytes' := by
  have hheader := headerOf_of_agree hagree
  have hsize := size_of_agree hagree
  constructor
  . rw [hsize]
    exact hwf.size
  . rw [hheader]
    exact hwf.magic
  . rw [hheader]
    exact hwf.ident_class
  . rw [hheader]
    exact hwf.ident_data
  . rw [hheader]
    exact hwf.ehsize
  . rw [hheader]
    exact hwf.phentsize
  . rw [hheader]
    exact hwf.shentsize
  . rw [hheader]
    exact hwf.shstrndx
  . rw [hheader, hsize]
    exact hwf.phdrs_fit
  . rw [hheader, hsize]
    exact hwf.shdrs_fit

omit hwf in
theorem fileOf_of_agree
    : fileOf true .Big bytes' = { fileOf true .Big bytes with raw := bytes' } := by
  have hheader := headerOf_of_agree hagree
  have hphdr : (Phdr.codec true .Big).size = 56 := by
    rfl
  have hshdr : (Shdr.codec true .Big).size = 64 := by
    rfl
  unfold fileOf tableOf
  dsimp only
  rw [hheader, hphdr, hshdr, hagree.slice_eq, hagree.slice_eq]
  . intro i hlower hupper
    exact .sections i hlower hupper
  . intro i hlower hupper
    exact .segments i hlower hupper

omit hwf in
theorem resolveEntryDescriptor_of_agree
    : resolveEntryDescriptor (fileOf true .Big bytes') = resolveEntryDescriptor (fileOf true .Big bytes) := by
  have hsize : bytes'.size = (fileOf true .Big bytes).raw.size := size_of_agree hagree
  have hvalidate : validatePs3Executable { fileOf true .Big bytes with raw := bytes' }
      = validatePs3Executable (fileOf true .Big bytes) := by
    rfl
  have hentry : ElfFile.entry { fileOf true .Big bytes with raw := bytes' } = (fileOf true .Big bytes).entry := by
    rfl
  rw [fileOf_of_agree hagree]
  unfold resolveEntryDescriptor
  rw [hvalidate, hentry]
  dsimp only
  rw [vaddrToFileOffset_of_raw _ hsize]
  cases hoffset : (fileOf true .Big bytes).vaddrToFileOffset (fileOf true .Big bytes).entry with
  | error e => rfl
  | ok offset =>
    dsimp only
    rw [readAt_of_raw _ hsize]
    apply hagree.slice_eq
    intro i hlower hupper
    exact .descriptor offset hoffset i hlower hupper

omit hwf in
theorem isAlreadyPatched_of_agree
    : isAlreadyPatched (fileOf true .Big bytes') = isAlreadyPatched (fileOf true .Big bytes) := by
  have hsize : bytes'.size = (fileOf true .Big bytes).raw.size := size_of_agree hagree
  have hslice (ph : Phdr true .Big) (hph : ph ∈ (fileOf true .Big bytes).segments) (hload : ph.p_type = PT_LOAD)
      (hfilesz : 8 ≤ ph.p_filesz.toNat)
      : slice bytes'.toList ph.p_offset.toNat 8 = slice (fileOf true .Big bytes).raw.toList ph.p_offset.toNat 8 := by
    apply hagree.slice_eq
    intro i hlower hupper
    exact .magic ph hph hload hfilesz i hlower hupper
  rw [fileOf_of_agree hagree, Bool.eq_iff_iff, isAlreadyPatched_eq_true_iff, isAlreadyPatched_eq_true_iff]
  dsimp only
  rw [hsize]
  constructor
  . intro ⟨ph, hph, hload, hfilesz, hin, hmagic⟩
    rw [hslice ph hph hload hfilesz] at hmagic
    exact ⟨ph, hph, hload, hfilesz, hin, hmagic⟩
  . intro ⟨ph, hph, hload, hfilesz, hin, hmagic⟩
    rw [← hslice ph hph hload hfilesz] at hmagic
    exact ⟨ph, hph, hload, hfilesz, hin, hmagic⟩

omit hwf in
theorem buildTrampoline_of_agree {entry : EntryDescriptor}
    (hentry : resolveEntryDescriptor (fileOf true .Big bytes) = .ok entry) (path : List Byte)
    : buildTrampoline (fileOf true .Big bytes') entry (pickTrampolineAddr (fileOf true .Big bytes)) path
        =
      buildTrampoline (fileOf true .Big bytes) entry (pickTrampolineAddr (fileOf true .Big bytes)) path := by
  have hsize : bytes'.size = (fileOf true .Big bytes).raw.size := size_of_agree hagree
  have hcount := displaced_eq entry (pickTrampolineAddr (fileOf true .Big bytes))
  unfold buildTrampoline
  rw [isAlreadyPatched_of_agree hagree, fileOf_of_agree hagree]
  dsimp only
  rw [vaddrToFileOffset_of_raw _ hsize]
  cases hoffset : (fileOf true .Big bytes).vaddrToFileOffset entry.codeAddress with
  | error e => rfl
  | ok offset =>
    dsimp only
    rw [readAt_of_raw _ hsize]
    apply hagree.slice_eq
    intro i hlower hupper
    apply Inspected.window entry hentry offset hoffset i hlower
    replace hupper : i < offset.toNat
        + (BitVec.ofNat 64 (displaced entry (pickTrampolineAddr (fileOf true .Big bytes)) * 4)).toNat := hupper
    rw [BitVec.toNat_ofNat] at hupper
    omega

omit hwf in
/--
The other run looks at the same offsets.
-/
theorem inspected_of_agree (i : Nat) (hi : Inspected (fileOf true .Big bytes') i)
    : Inspected (fileOf true .Big bytes) i := by
  have hsize : bytes'.size = (fileOf true .Big bytes).raw.size := size_of_agree hagree
  have hfile := fileOf_of_agree hagree
  have hresolve := resolveEntryDescriptor_of_agree hagree
  cases hi with
  | header i hi => exact .header i hi
  | segments i hlower hupper =>
    rw [hfile] at hlower hupper
    exact .segments i hlower hupper
  | sections i hlower hupper =>
    rw [hfile] at hlower hupper
    exact .sections i hlower hupper
  | descriptor offset hoffset i hlower hupper =>
    rw [hfile, vaddrToFileOffset_of_raw _ hsize] at hoffset
    exact .descriptor offset hoffset i hlower hupper
  | magic ph hph hload hfilesz i hlower hupper =>
    have hmem : ph ∈ (fileOf true .Big bytes).segments := by
      rw [hfile] at hph
      exact hph
    exact .magic ph hmem hload hfilesz i hlower hupper
  | window entry hentry offset hoffset i hlower hupper =>
    rw [hresolve] at hentry
    rw [hfile] at hoffset hupper
    rw [vaddrToFileOffset_of_raw _ hsize] at hoffset
    exact .window entry hentry offset hoffset i hlower hupper

end Agree

/--
`run'` is `run` on an input with another payload.
-/
structure SameButPayload (bytes bytes' : Bytes) (run run' : Run) : Prop where
  file : run'.file = { run.file with raw := bytes' }
  entry : run'.entry = run.entry
  trampolineAddr : run'.trampolineAddr = run.trampolineAddr
  tramp : run'.tramp = run.tramp
  entryOffset : run'.entryOffset = run.entryOffset
  outBytes : Copied bytes.toList bytes'.toList run.outBytes.toList run'.outBytes.toList

theorem copied_withShdrs {bytes : Bytes} {f : Ps3ElfFile} (m : Mutated bytes f) {src src' : List Byte} {raw : Bytes}
    (h : Copied src src' f.raw.toList raw.toList)
    : Copied src src' f.withShdrs ({ f with raw } : Ps3ElfFile).withShdrs := by
  have hlen := m.length_withHeader
  have hlen' := m.length_withPhdrs
  have hphoff := m.e_phoff
  have hfit := m.shdrs_fit
  have hsize := m.size
  have hheader := h.splice ((Ehdr.codec true .Big).encode f.header) 0 (Nat.zero_le _)
  have hphdrs := hheader.splice ((Phdr.codec true .Big).encodeAll f.segments) f.header.e_phoff.toNat (by
    show _ ≤ f.withHeader.length
    omega)
  apply hphdrs.splice ((Shdr.codec true .Big).encodeAll f.sections) f.header.e_shoff.toNat
  show _ ≤ f.withPhdrs.length
  omega

theorem Patched.exists_payload {bytes bytes' : Bytes} {path : List Byte} {run : Run} (p : Patched bytes path run)
    (inputPath : String) (hagree : AgreeOn (Inspected (fileOf true .Big bytes)) bytes.toList bytes'.toList)
    : ∃ run', patch inputPath bytes' path = .ok run' ∧ SameButPayload bytes bytes' run run' := by
  have hsize := size_of_agree hagree
  have hfile := fileOf_of_agree hagree
  have hparse := parseAny_of_wellFormed bytes' (wellFormed_of_agree p.wellFormed hagree)
  have hentry := p.entry
  have hfresh := p.fresh
  have hbuilt := p.built
  rw [p.addr, p.file] at hbuilt
  rw [p.file] at hentry hfresh
  rw [← resolveEntryDescriptor_of_agree hagree, hfile, ← p.file] at hentry
  rw [← isAlreadyPatched_of_agree hagree, hfile, ← p.file] at hfresh
  rw [← buildTrampoline_of_agree hagree (by rw [← p.file]; exact p.entry), hfile, ← p.file, ← p.addr] at hbuilt
  rw [hfile, ← p.file] at hparse
  have ⟨run', hpatch, alike⟩ := p.exists_alike inputPath bytes' hsize hparse hentry hfresh hbuilt rfl rfl
  refine ⟨run', hpatch, alike.file, alike.entry, alike.trampolineAddr, alike.tramp, alike.entryOffset, ?_⟩
  have hwindow := p.window
  have hcopied : Copied bytes.toList bytes'.toList run.patched.raw.toList run'.patched.raw.toList := by
    rw [p.raw, alike.raw]
    apply ((Copied.refl hagree.left).append run.tramp.blob).splice
    rw [List.length_append]
    unfold Bytes.size at hwindow
    omega
  rw [p.toList_outBytes, alike.outBytes, alike.patched]
  exact copied_withShdrs p.mutated hcopied

/--
Two inputs that agree on what is looked at: both runs end in the same way, and what they write differs at most in
bytes that both of them have copied from their input.
-/
theorem patch_payload_lockstep (inputPath : String) (bytes bytes' : Bytes) (path : List Byte) (file : Ps3ElfFile)
    (hparse : parseAny bytes = .ok (.be64 file))
    (hagree : AgreeOn (Inspected file) bytes.toList bytes'.toList)
    : Lockstep (SameButPayload bytes bytes') (patch inputPath bytes path) (patch inputPath bytes' path) := by
  have ⟨is64, E, hwf, hof⟩ := (parseAny_eq_ok_iff _ _).mp hparse
  have ⟨hwf, hfile⟩ := be64_of_eq bytes file hwf hof
  rw [hfile] at hparse hagree
  have hwf' := wellFormed_of_agree hwf hagree
  have hresolve := resolveEntryDescriptor_of_agree hagree
  have haddr : pickTrampolineAddr (fileOf true .Big bytes') = pickTrampolineAddr (fileOf true .Big bytes) := by
    rw [fileOf_of_agree hagree]
    rfl
  apply lockstep_of_built inputPath hparse (parseAny_of_wellFormed bytes' hwf') hresolve
    (isAlreadyPatched_of_agree hagree)
  . intro entry hentry
    rw [haddr, buildTrampoline_of_agree hagree hentry]
    exact .refl (fun _ => rfl) _
  . intro run h
    apply (patched_of_patch _ _ _ _ h).exists_payload inputPath hagree
  . intro run' h'
    have ⟨run, hrun, _⟩ := (patched_of_patch _ _ _ _ h').exists_payload inputPath
      (hagree.symm (inspected_of_agree hagree))
    exact ⟨run, hrun⟩

section Examples

-- Another last instruction.
def blrSample : Bytes := ⟨splice plainSample.toList 148 [0x4E, 0x80, 0x00, 0x20], by decide +kernel⟩

theorem agreeOn_blrSample
    : AgreeOn (Inspected (fileOf true .Big plainSample)) plainSample.toList blrSample.toList := by
  have hsegments : (fileOf true .Big plainSample).header.e_phoff.toNat
      + (fileOf true .Big plainSample).header.e_phnum.toNat * 56 = 120 := by
    decide +kernel
  have hsections : (fileOf true .Big plainSample).header.e_shoff.toNat
      + (fileOf true .Big plainSample).header.e_shnum.toNat * 64 = 0 := by
    decide +kernel
  have hdescriptor : (fileOf true .Big plainSample).vaddrToFileOffset (fileOf true .Big plainSample).entry
      = .ok 120 := by
    decide +kernel
  have hmagic : ∀ ph ∈ (fileOf true .Big plainSample).segments, ph.p_offset.toNat = 0 := by
    decide +kernel
  have hentry : resolveEntryDescriptor (fileOf true .Big plainSample) = .ok ⟨0x10080, 0x30000, 0⟩ := by
    decide +kernel
  have hwindow : (fileOf true .Big plainSample).vaddrToFileOffset 0x10080 = .ok 128 := by
    decide +kernel
  have hcount : displaced ⟨0x10080, 0x30000, 0⟩ (pickTrampolineAddr (fileOf true .Big plainSample)) = 1 := by
    decide +kernel
  have hlength : plainSample.toList.length = 152 := by
    decide +kernel
  have hfront (i : Nat) (hi : Inspected (fileOf true .Big plainSample) i) : i < 132 := by
    cases hi with
    | header i hi => omega
    | segments i hlower hupper => omega
    | sections i hlower hupper => omega
    | descriptor offset hoffset i hlower hupper =>
      rw [hdescriptor, Except.ok.injEq] at hoffset
      rw [← hoffset] at hupper
      exact Nat.lt_trans hupper (by decide)
    | magic ph hph hload hfilesz i hlower hupper =>
      rw [hmagic ph hph] at hupper
      exact Nat.lt_trans hupper (by decide)
    | window entry hresolve offset hoffset i hlower hupper =>
      rw [hentry, Except.ok.injEq] at hresolve
      rw [← hresolve, hwindow, Except.ok.injEq] at hoffset
      rw [← hresolve, ← hoffset, hcount] at hupper
      exact hupper
  constructor
  . apply length_splice
    rw [hlength]
    decide
  . intro i hi
    have hlt := hfront i hi
    apply getElem?_splice_of_not_mem
    . rw [hlength]
      decide
    . omega

theorem patch_payload_lockstep_plainSample
    : ∃ run run', patch "EBOOT.elf" plainSample [0x61] = .ok run ∧ patch "EBOOT.elf" blrSample [0x61] = .ok run'
        ∧ run'.tramp = run.tramp
        ∧ Copied plainSample.toList blrSample.toList run.outBytes.toList run'.outBytes.toList := by
  have ⟨run, hrun⟩ := exists_ok_of_isOk isOk_patch_plainSample
  have p := patched_of_patch _ _ _ _ hrun
  have hparse := parseAny_of_wellFormed plainSample p.wellFormed
  have ⟨run', hrun', hsame⟩ := (patch_payload_lockstep "EBOOT.elf" plainSample blrSample [0x61] _ hparse
    agreeOn_blrSample).ok_left hrun
  exact ⟨run, run', hrun, hrun', hsame.tramp, hsame.outBytes⟩

end Examples

end Ps3patch
end ElfCraft
