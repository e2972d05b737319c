import ElfCraft.Ps3patch.Lemmas.Patch

/-!
This module contains what the tool sees when the output of a successful run is parsed again: the marker
of the trampoline and the chain from the entry point into the injected code.
-/

namespace ElfCraft
namespace Ps3patch

open Binary Elf ElfFile Ppc detail

theorem isAlreadyPatched.go_eq_true_iff (file : Ps3ElfFile) (phdrs : List (Phdr true .Big))
    : go file phdrs = true
        ↔
      ∃ ph ∈ phdrs, ph.p_type = PT_LOAD ∧ 8 ≤ ph.p_filesz.toNat
        ∧ ph.p_offset.toNat + 8 ≤ file.raw.size
        ∧ slice file.raw.toList ph.p_offset.toNat 8 = TRAMPOLINE_MAGIC := by
  induction phdrs with
  | nil => simp [go]
  | cons ph phdrs ih =>
    simp only [go, List.mem_cons, exists_eq_or_imp]
    rw [show TRAMPOLINE_MAGIC.length = 8 by rfl]
    by_cases htype : ph.p_type = PT_LOAD
    . rw [if_neg (by simp [htype])]
      by_cases hfilesz : ph.p_filesz.toNat < 8
      . rw [if_pos hfilesz, ih]
        simp only [show ¬ 8 ≤ ph.p_filesz.toNat by omega, false_and, and_false, false_or]
      . rw [if_neg hfilesz]
        cases hread : file.readAt ph.p_offset (BitVec.ofNat 64 8) with
        | error e =>
          have hfits : ¬ ph.p_offset.toNat + 8 ≤ file.raw.size := by
            intro hfits
            have hok := (readAt_eq_ok_iff file ph.p_offset 8 _ (by omega)).mpr ⟨hfits, rfl⟩
            rw [hok] at hread
            contradiction
          dsimp only
          rw [ih]
          simp only [hfits, false_and, and_false, false_or]
        | ok bytes =>
          rw [readAt_eq_ok_iff _ _ _ _ (by omega)] at hread
          obtain ⟨hfits, hbytes⟩ := hread
          dsimp only
          rw [hbytes]
          simp only [htype, hfits, show 8 ≤ ph.p_filesz.toNat by omega, true_and]
          split
          . next hmagic => simp only [hmagic, true_or]
          . next hmagic =>
            rw [ih]
            simp only [hmagic, false_or]
    . rw [if_pos htype, ih]
      simp only [htype, false_and, false_or]

theorem isAlreadyPatched_eq_true_iff (file : Ps3ElfFile)
    : isAlreadyPatched file = true
        ↔
      ∃ ph ∈ file.segments, ph.p_type = PT_LOAD ∧ 8 ≤ ph.p_filesz.toNat
        ∧ ph.p_offset.toNat + 8 ≤ file.raw.size
        ∧ slice file.raw.toList ph.p_offset.toNat 8 = TRAMPOLINE_MAGIC := by
  apply isAlreadyPatched.go_eq_true_iff

theorem buildTrampoline_of_isAlreadyPatched (file : Ps3ElfFile) (entry : EntryDescriptor)
    (T : BitVec 32) (path : List Byte) (hpatched : isAlreadyPatched file = true) (hne : path ≠ [])
    (hle : path.length ≤ 1023) (hT : T.toNat % 4 = 0) (hcode : entry.codeAddress.toNat % 4 = 0)
    : ∃ message, buildTrampoline file entry T path = .error (.error (.make .AlreadyPatched message)) := by
  unfold buildTrampoline
  rw [if_neg hne, if_neg (by unfold kMaxPathLength; omega), if_neg (by simp [hT]),
    if_neg (by simp [hcode]), if_pos hpatched]
  exact ⟨_, rfl⟩

namespace Patched

variable {bytes : Bytes} {path : List Byte} {run : Run} (p : Patched bytes path run)
include p

/--
The entry point resolves, so there is a segment.
-/
theorem phnum_pos : 0 < (headerOf true .Big bytes).e_phnum.toNat := by
  rw [← p.length_old]
  have hlookup := p.lookup
  rw [vaddrToFileOffset_eq_ok_iff] at hlookup
  obtain ⟨ph, hph, -⟩ := hlookup
  exact List.length_pos_of_mem (List.mem_of_find?_eq_some hph)

theorem clear_patched (hclear : run.file.SectionsClear) : run.patched.SectionsClear := by
  unfold SectionsClear at *
  rw [p.header, Ehdr.e_shnum_withTable, Ehdr.e_shoff_withTable]
  exact hclear

theorem reparsable (hclear : run.file.SectionsClear)
    (hcount : (headerOf true .Big bytes).e_phnum.toNat < 65535)
    : Reparsable bytes run.patched := by
  have hlen := p.length_segments
  constructor
  . exact p.mutated
  . exact p.clear_patched hclear
  . omega
  . intro _
    rw [p.header, Ehdr.e_phentsize_withTable, p.file]
    apply p.wellFormed.phentsize
    rw [BitVec.lt_def]
    exact p.phnum_pos

theorem parseAny_outBytes (hclear : run.file.SectionsClear)
    (hcount : (headerOf true .Big bytes).e_phnum.toNat < 65535)
    : parseAny run.outBytes = .ok (.be64 { run.patched with raw := run.outBytes }) := by
  have r := p.reparsable hclear hcount
  rw [parseAny_of_wellFormed run.outBytes (r.wellFormed_out p.output), r.fileOf_out p.output]
  rfl

/--
With 65535 segments in the input the count wraps to zero in the output.
-/
theorem segments_of_wrapped (hclear : run.file.SectionsClear)
    (hcount : (headerOf true .Big bytes).e_phnum.toNat = 65535) (file : Ps3ElfFile)
    (hparse : parseAny run.outBytes = .ok (.be64 file))
    : file.segments = [] := by
  rw [parseAny_eq_ok_iff] at hparse
  obtain ⟨is64, E, hwf, hof⟩ := hparse
  obtain ⟨-, rfl⟩ := be64_of_eq run.outBytes file hwf hof
  have hheader := p.mutated.headerOf_out (p.clear_patched hclear) p.output
  have hzero : (headerOf true .Big run.outBytes).e_phnum.toNat = 0 := by
    rw [hheader, p.mutated.e_phnum, p.length_segments, hcount]
    rfl
  apply List.eq_nil_of_length_eq_zero
  rw [← hzero]
  apply Codec.length_decodeAll

theorem p_offset_new
    : (run.file.nextPhdr (trampolineLoad run)).p_offset.toNat = bytes.size := by
  have hsize := bytes.size_lt
  unfold nextPhdr
  rw [Phdr.p_offset_load _ _ _ _ _ (by exact BitVec.isLt _), p.file]
  show (BitVec.ofNat 64 bytes.size).toNat = _
  rw [BitVec.toNat_ofNat, Nat.mod_eq_of_lt (by omega)]

theorem p_filesz_new
    : (run.file.nextPhdr (trampolineLoad run)).p_filesz.toNat = run.tramp.blob.length := by
  have hsize := run.patched.raw.size_lt
  have hraw := p.size_raw
  unfold nextPhdr
  rw [Phdr.p_filesz_load _ _ _ _ _ (by exact BitVec.isLt _)]
  show (BitVec.ofNat 64 run.tramp.blob.length).toNat = _
  rw [BitVec.toNat_ofNat, Nat.mod_eq_of_lt (by omega)]

theorem slice_outBytes_blob (pos len : Nat) (h : pos + len ≤ run.tramp.blob.length)
    : slice run.outBytes.toList (bytes.size + pos) len = slice run.tramp.blob pos len := by
  have hraw := p.size_raw
  rw [p.toList_outBytes, p.mutated.slice_withShdrs _ _ (by omega) (by omega)]
  rw [← slice_slice _ _ _ _ _ h, p.slice_raw_blob]

theorem isAlreadyPatched_out : isAlreadyPatched { run.patched with raw := run.outBytes } = true := by
  obtain ⟨offset, originals, resumed, b⟩ := built_of_buildTrampoline _ _ _ _ _ p.built
  obtain ⟨k, hk, hblob⟩ := b.blobLayout.blob_eq
  have hmagic : slice run.tramp.blob 0 8 = TRAMPOLINE_MAGIC := by
    rw [hblob]
    rfl
  have hlen : 8 ≤ run.tramp.blob.length := by
    have h := congrArg List.length hmagic
    unfold slice at h
    rw [List.length_take, List.drop_zero] at h
    have h8 : TRAMPOLINE_MAGIC.length = 8 := by
      rfl
    omega
  have hout := p.size_outBytes
  rw [isAlreadyPatched_eq_true_iff]
  refine ⟨run.file.nextPhdr (trampolineLoad run), ?_, ?_, ?_, ?_, ?_⟩
  . show _ ∈ run.patched.segments
    rw [p.segments]
    simp
  . apply Phdr.p_type_load
  . rw [p.p_filesz_new]
    exact hlen
  . rw [p.p_offset_new]
    show _ ≤ run.outBytes.size
    omega
  . rw [p.p_offset_new]
    have h := p.slice_outBytes_blob 0 8 (by omega)
    rw [Nat.add_zero] at h
    rw [h, hmagic]

end Patched

/--
The output is recognized as patched and refused.
-/
def Refused (outBytes : Bytes) : Prop :=
  ∃ file, parseAny outBytes = .ok (.be64 file) ∧ isAlreadyPatched file = true
    ∧ ∀ (entry : EntryDescriptor) (T : BitVec 32) (path : List Byte), path ≠ [] →
        path.length ≤ 1023 → T.toNat % 4 = 0 → entry.codeAddress.toNat % 4 = 0 →
        ∃ message, buildTrampoline file entry T path = .error (.error (.make .AlreadyPatched message))

/--
As long as the section header table stays off the header fields, the output is refused exactly when its
program headers can be counted in 16 bits.
-/
theorem patch_refused_iff (inputPath : String) (bytes : Bytes) (path : List Byte) (run : Run)
    (h : patch inputPath bytes path = .ok run) (hclear : run.file.SectionsClear)
    : Refused run.outBytes ↔ (headerOf true .Big bytes).e_phnum.toNat < 65535 := by
  have p := patched_of_patch inputPath bytes path run h
  have hlt := (headerOf true .Big bytes).e_phnum.isLt
  constructor
  . rintro ⟨file, hparse, hpatched, -⟩
    apply Decidable.by_contra
    intro hge
    have hnil := p.segments_of_wrapped hclear (by omega) file hparse
    rw [isAlreadyPatched_eq_true_iff, hnil] at hpatched
    simp at hpatched
  . intro hcount
    refine ⟨_, p.parseAny_outBytes hclear hcount, p.isAlreadyPatched_out, ?_⟩
    intro entry T path' hne hle hT hcode
    exact buildTrampoline_of_isAlreadyPatched _ entry T path' p.isAlreadyPatched_out hne hle hT hcode

theorem patch_refused_plainSample
    : ∃ run, patch "EBOOT.elf" plainSample [0x61] = .ok run
        ∧ (Refused run.outBytes ↔ (headerOf true .Big plainSample).e_phnum.toNat < 65535) := by
  obtain ⟨run, hrun⟩ := exists_ok_of_isOk isOk_patch_plainSample
  have hclear : run.file.SectionsClear := by
    rw [(patched_of_patch _ _ _ _ hrun).file]
    left
    decide +kernel
  exact ⟨run, hrun, patch_refused_iff _ _ _ _ hrun hclear⟩

-- The file that the patch mode would work on if it was given these bytes.
def ps3ElfFileOf (bytes : Bytes) : Option Ps3ElfFile :=
  match parseAny bytes with
  | .ok (.be64 file) => some file
  | _ => none

theorem ps3ElfFileOf_of_parseAny {bytes : Bytes} {file : Ps3ElfFile} (h : parseAny bytes = .ok (.be64 file))
    : ps3ElfFileOf bytes = some file := by
  unfold ps3ElfFileOf
  rw [h]

-- The section header table is the header itself.
def coveredSample : Bytes := ⟨sample [(0x10000, 0x1000)] 1, by decide +kernel⟩

theorem patch_refused_coveredSample
    : ∃ run, patch "EBOOT.elf" coveredSample [0x61] = .ok run ∧ ¬ Refused run.outBytes := by
  have hok : (patch "EBOOT.elf" coveredSample [0x61]).isOk = true := by
    decide +kernel
  have hagain : ((patch "EBOOT.elf" coveredSample [0x61]).toOption.map fun run =>
      (ps3ElfFileOf run.outBytes).map isAlreadyPatched) = some (some false) := by
    decide +kernel
  obtain ⟨run, hrun⟩ := exists_ok_of_isOk hok
  rw [hrun, Except.toOption, Option.map_some, Option.some.injEq] at hagain
  refine ⟨run, hrun, ?_⟩
  rintro ⟨file, hparse, hpatched, -⟩
  rw [ps3ElfFileOf_of_parseAny hparse, Option.map_some, Option.some.injEq] at hagain
  rw [hagain] at hpatched
  exact Bool.false_ne_true hpatched

end Ps3patch
end ElfCraft
