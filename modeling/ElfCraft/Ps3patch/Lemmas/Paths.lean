import ElfCraft.Ps3patch.Lemmas.Alike

/-!
This module contains runs that only differ in the path of the module. The path is data for them: it decides
neither whether they succeed nor about anything else that they write.
-/

namespace ElfCraft
namespace Ps3patch

open Binary Elf ElfFile Ppc Exec detail

/--
Where the path is in a trampoline at `T`.
-/
def pathPos (entry : EntryDescriptor) (T : BitVec 32) : Nat :=
  8 + 4 * (49 + displaced entry T + (jumpBack entry T).length)

/--
`r'` is `r` with another path.
-/
def SwapsPath (pos : Nat) (path path' : List Byte) (r r' : TrampolineResult) : Prop :=
  r' = { r with blob := splice r.blob pos path' } ∧ slice r.blob pos path.length = path
    ∧ pos + path.length ≤ r.blob.length

theorem length_padBlob_go (rounds : Nat) (blob blob' : List Byte) (h : blob.length = blob'.length)
    : ∃ pad, padBlob.go rounds blob = blob ++ pad ∧ padBlob.go rounds blob' = blob' ++ pad := by
  induction rounds generalizing blob blob' with
  | zero => exact ⟨[], (List.append_nil _).symm, (List.append_nil _).symm⟩
  | succ rounds ih =>
    simp only [padBlob.go, ← h]
    split
    . obtain ⟨pad, hpad, hpad'⟩ := ih (blob ++ [0]) (blob' ++ [0]) (by simp [h])
      refine ⟨[0] ++ pad, ?_, ?_⟩
      . rw [hpad, List.append_assoc]
      . rw [hpad', List.append_assoc]
    . exact ⟨[], (List.append_nil _).symm, (List.append_nil _).symm⟩

section Build

variable (file : Ps3ElfFile) (entry : EntryDescriptor) (T : BitVec 32) {path path' : List Byte}
variable (hlen : path'.length = path.length)
include hlen

theorem swapsPath_padBlob (words : List Instruction) (jump : List Byte) (T entryAddr : BitVec 32) (count : Nat)
    : SwapsPath (8 + 4 * words.length) path path'
        { blob := padBlob (TRAMPOLINE_MAGIC ++ toBigEndianBytes words ++ path ++ [0]), entryPatchBytes := jump
          trampolineAddr := T, entryPatchAddr := entryAddr, displacedInstructionCount := count }
        { blob := padBlob (TRAMPOLINE_MAGIC ++ toBigEndianBytes words ++ path' ++ [0]), entryPatchBytes := jump
          trampolineAddr := T, entryPatchAddr := entryAddr, displacedInstructionCount := count } := by
  have hfront : (TRAMPOLINE_MAGIC ++ toBigEndianBytes words).length = 8 + 4 * words.length := by
    rw [List.length_append, length_toBigEndianBytes, Nat.mul_comm]
    rfl
  have ⟨pad, hpad, hpad'⟩ := length_padBlob_go 3 (TRAMPOLINE_MAGIC ++ toBigEndianBytes words ++ path ++ [0])
    (TRAMPOLINE_MAGIC ++ toBigEndianBytes words ++ path' ++ [0]) (by simp [hlen])
  unfold SwapsPath padBlob
  rw [hpad, hpad']
  generalize TRAMPOLINE_MAGIC ++ toBigEndianBytes words = front at hfront
  dsimp only
  rw [← hfront]
  refine ⟨?_, ?_, ?_⟩
  . rw [List.append_assoc (front ++ path), List.append_assoc (front ++ path'), splice_append_middle _ _ _ _ hlen]
  . rw [List.append_assoc]
    apply slice_append_middle
  . simp only [List.length_append]
    omega

/--
The exits of the builder that look at the path only look at its length.
-/
theorem buildTrampoline_lockstep
    : Lockstep (SwapsPath (pathPos entry T) path path') (buildTrampoline file entry T path)
        (buildTrampoline file entry T path') := by
  have hnil : path = [] ↔ path' = [] := by
    rw [← List.length_eq_zero_iff, ← List.length_eq_zero_iff, hlen]
  unfold buildTrampoline
  apply Lockstep.ite hnil (fun _ => .error _)
  intro _
  apply Lockstep.ite (by rw [hlen]) (fun _ => .error _)
  intro _
  apply Lockstep.ite Iff.rfl (fun _ => .error _)
  intro _
  apply Lockstep.ite Iff.rfl (fun _ => .error _)
  intro _
  apply Lockstep.ite Iff.rfl (fun _ => .error _)
  intro _
  dsimp only
  cases file.vaddrToFileOffset entry.codeAddress with
  | error e => exact .error _
  | ok offset =>
    dsimp only
    generalize file.readAt offset _ = read
    cases read with
    | error e => exact .error _
    | ok bytes =>
      dsimp only
      generalize relocateDisplacedInstructions _ _ _ = relocation
      cases relocation with
      | error e => exact .error _
      | ok relocated =>
        dsimp only
        apply Lockstep.ite Iff.rfl (fun _ => .error _)
        intro _
        rw [buildPrologue_eq, buildEpilogue_eq]
        dsimp only
        apply Lockstep.ite Iff.rfl (fun _ => .error _)
        intro hcode
        have hswap := swapsPath_padBlob hlen (code entry T relocated) (toBigEndianBytes (jumpIn entry T)) T
          (entryAddr entry) (displaced entry T)
        have hcount : (code entry T relocated).length
            = fixedPrefixInstrCount + displaced entry T + (jumpBack entry T).length := Decidable.not_not.mp hcode
        have hpos : pathPos entry T = 8 + 4 * (code entry T relocated).length := by
          unfold pathPos
          rw [hcount]
          rfl
        rw [hpos]
        exact .ok _ _ hswap

end Build

/--
What is written with other bytes in a place behind what was parsed is the same with those bytes in that place.
-/
theorem withShdrs_of_splice {bytes raw : Bytes} {f : Ps3ElfFile} (m : Mutated bytes f) {pos : Nat}
    {data : List Byte} (hpos : bytes.size ≤ pos) (hin : pos + data.length ≤ f.raw.size)
    (hraw : raw.toList = splice f.raw.toList pos data)
    : ({ f with raw } : Ps3ElfFile).withShdrs = splice f.withShdrs pos data := by
  have hfile := m.wellFormed.size
  have hphoff := m.e_phoff
  have hfit := m.shdrs_fit
  have hlen := m.length_withHeader
  have hlen' := m.length_withPhdrs
  have hheader : ((Ehdr.codec true .Big).encode f.header).length = _ := Codec.length_encode _ _
  have hsections : ((Shdr.codec true .Big).encodeAll f.sections).length = _ := Codec.length_encodeAll _ _
  rw [m.sections_length] at hsections
  have hwithHeader : ({ f with raw } : Ps3ElfFile).withHeader = splice f.withHeader pos data := by
    unfold withHeader
    dsimp only
    rw [hraw]
    symm
    apply splice_comm
    . omega
    . unfold Bytes.size at hin
      omega
  have hwithPhdrs : ({ f with raw } : Ps3ElfFile).withPhdrs = splice f.withPhdrs pos data := by
    unfold withPhdrs
    rw [hwithHeader]
    apply splice_comm
    . show _ ≤ f.header.e_phoff.toNat
      omega
    . show f.header.e_phoff.toNat ≤ _
      omega
  unfold withShdrs
  rw [hwithPhdrs]
  symm
  apply splice_comm
  . show f.header.e_shoff.toNat + _ ≤ _
    omega
  . omega

/--
`run'` has written `path'` where `run` has written `path`, they have done the same everywhere else.
-/
structure SameButPath (path path' : List Byte) (run run' : Run) : Prop where
  file : run'.file = run.file
  entry : run'.entry = run.entry
  trampolineAddr : run'.trampolineAddr = run.trampolineAddr
  entryOffset : run'.entryOffset = run.entryOffset
  entryPatchBytes : run'.tramp.entryPatchBytes = run.tramp.entryPatchBytes
  path : slice run.outBytes.toList (run.file.raw.size + pathPos run.entry run.trampolineAddr) path.length = path
  outBytes : run'.outBytes.toList
    = splice run.outBytes.toList (run.file.raw.size + pathPos run.entry run.trampolineAddr) path'

namespace Patched

variable {bytes : Bytes} {path path' : List Byte} {run : Run} (p : Patched bytes path run)
include p

theorem exists_swapped (inputPath : String) (hlen : path'.length = path.length)
    : ∃ run', patch inputPath bytes path' = .ok run' ∧ SameButPath path path' run run' := by
  have hraw : run.file.raw = bytes := by
    rw [p.file]
    rfl
  have hsame : ({ run.file with raw := bytes } : Ps3ElfFile) = run.file := by
    rw [← hraw]
  have hparse : parseAny bytes = .ok (.be64 run.file) := by
    rw [p.file]
    apply parseAny_of_wellFormed bytes p.wellFormed
  have ⟨r', hbuilt, hr', hslice, hin⟩ := (buildTrampoline_lockstep run.file run.entry run.trampolineAddr
    hlen).ok_left p.built
  generalize hpos : pathPos run.entry run.trampolineAddr = pos at hr' hslice hin
  have hblob : r'.blob = splice run.tramp.blob pos path' := by
    rw [hr']
  have hblobLength : r'.blob.length = run.tramp.blob.length := by
    rw [hblob]
    apply length_splice
    omega
  have hjump : r'.entryPatchBytes = run.tramp.entryPatchBytes := by
    rw [hr']
  rw [← hsame] at hparse hbuilt
  have ⟨run', hpatch, alike⟩ := p.exists_alike inputPath bytes rfl hparse (by rw [hsame]; exact p.entry)
    (by rw [hsame]; exact p.fresh) hbuilt hblobLength hjump
  have hsize := p.size_raw
  have hwindow := p.window
  have hlist : run'.patched.raw.toList = splice run.patched.raw.toList (bytes.size + pos) path' := by
    rw [alike.raw, hblob, p.raw]
    unfold Bytes.size at hsize hwindow ⊢
    rw [← splice_append_length_add]
    symm
    apply splice_comm
    . omega
    . rw [List.length_append]
      omega
  have hout := alike.outBytes
  rw [alike.patched, withShdrs_of_splice p.mutated (Nat.le_add_right bytes.size pos) (by omega) hlist,
    ← p.toList_outBytes] at hout
  refine ⟨run', hpatch, ?_⟩
  constructor
  . exact alike.file.trans hsame
  . exact alike.entry
  . exact alike.trampolineAddr
  . exact alike.entryOffset
  . rw [alike.tramp]
    exact hjump
  . rw [hraw, hpos, p.slice_outBytes_blob pos _ hin, hslice]
  . rw [hraw, hpos, hout]

end Patched

/--
Two paths of one length: both runs end in the same way, and what they write differs in the path only.
-/
theorem patch_lockstep (inputPath : String) (bytes : Bytes) (path path' : List Byte)
    (hlen : path'.length = path.length)
    : Lockstep (SameButPath path path') (patch inputPath bytes path) (patch inputPath bytes path') := by
  cases hparse : parseAny bytes with
  | error e =>
    unfold patch
    rw [hparse]
    exact .error _
  | ok any =>
    cases any with
    | be64 file =>
      apply lockstep_of_built inputPath hparse hparse rfl rfl
      . intro entry _
        exact buildTrampoline_lockstep file entry (pickTrampolineAddr file) hlen
      . intro run h
        apply (patched_of_patch _ _ _ _ h).exists_swapped inputPath hlen
      . intro run' h'
        have ⟨run, hrun, _⟩ := (patched_of_patch _ _ _ _ h').exists_swapped inputPath hlen.symm
        exact ⟨run, hrun⟩
    | _ =>
      unfold patch
      simp only [hparse]
      exact .error _

theorem patch_lockstep_plainSample
    : ∃ run run', patch "EBOOT.elf" plainSample [0x61] = .ok run ∧ patch "EBOOT.elf" plainSample [0x62] = .ok run'
        ∧ run'.outBytes.toList
          = splice run.outBytes.toList (run.file.raw.size + pathPos run.entry run.trampolineAddr) [0x62] := by
  have ⟨run, hrun⟩ := exists_ok_of_isOk isOk_patch_plainSample
  have ⟨run', hrun', hsame⟩ := (patch_lockstep "EBOOT.elf" plainSample [0x61] [0x62] rfl).ok_left hrun
  exact ⟨run, run', hrun, hrun', hsame.outBytes⟩

end Ps3patch
end ElfCraft
