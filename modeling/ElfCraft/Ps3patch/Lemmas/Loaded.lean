import ElfCraft.Elf.Lemmas.Image
import ElfCraft.Ps3patch.Lemmas.Chain
import ElfCraft.Ps3patch.Lemmas.Session

/-!
This module contains the memory image that the tool itself finds in the output of a patch: the one of the
input, with the window at the entry point overwritten and the blob in addition. Where segments overlap, the
first one that contains an address decides.
-/

namespace ElfCraft
namespace Ps3patch

open Binary Elf ElfFile Ppc detail

/--
The memory image of the output.
-/
def patchedImage (run : Run) : MappedFile Byte :=
  (run.file.mapped.append run.trampolineAddr.toNat run.tramp.blob).overwrite run.entryOffset.toNat
    run.tramp.entryPatchBytes

-- The two header fields that the patch changes.
def InFields (offset : Nat) : Prop := (32 ≤ offset ∧ offset < 40) ∨ (56 ≤ offset ∧ offset < 58)

-- The instruction that is fetched from an address.
def fetchAt (file : Ps3ElfFile) (a : Nat) : Option Instruction :=
  ((List.range 4).mapM fun j => file.byteAt (BitVec.ofNat 64 (a + j))).map fun bs =>
    joinWord (bs.getD 0 0) (bs.getD 1 0) (bs.getD 2 0) (bs.getD 3 0)

theorem fetchAt_of_bytes {file : Ps3ElfFile} {a : Nat} {w : Instruction}
    (h : ∀ j < 4, file.byteAt (BitVec.ofNat 64 (a + j)) = (toBigEndianBytes [w])[j]?)
    : fetchAt file a = some w := by
  have hbytes : toBigEndianBytes [w] = word.encode w := by
    rw [toBigEndianBytes_eq]
    simp [Codec.encodeAll]
  rw [hbytes] at h
  unfold fetchAt
  simp only [List.range_succ, List.range_zero, List.nil_append, List.cons_append, List.mapM_cons,
    List.mapM_nil, h 0 (by decide), h 1 (by decide), h 2 (by decide), h 3 (by decide)]
  show some (joinWord (w.extractLsb' 24 8) (w.extractLsb' 16 8) (w.extractLsb' 8 8) (w.extractLsb' 0 8)) = _
  rw [joinWord_extract]

namespace Patched

variable {bytes : Bytes} {path : List Byte} {run : Run} (p : Patched bytes path run)
include p

theorem edits
    : run.file.edits [.addLoadSegment (trampolineLoad run),
        .patchBytesAt run.entryOffset run.tramp.entryPatchBytes] = some run.patched := by
  have hsize := p.size_raw
  have hmax := run.patched.raw.size_le
  have hraw := p.raw
  have hwindow := p.window
  have hpatched : run.patched =
      { header := run.file.header.withTable (BitVec.ofNat 64 run.patched.raw.size)
          (BitVec.ofNat 16 (run.file.segments.length + 1))
        segments := run.file.segments ++ [run.file.nextPhdr (trampolineLoad run)]
        sections := run.file.sections
        raw := run.patched.raw } := by
    rw [← p.header, ← p.segments, ← p.sections]
  have hloaded : (bytes.toList ++ run.tramp.blob).length ≤ maxSize := by
    rw [List.length_append]
    unfold Bytes.size at hsize
    omega
  have happend : run.file.raw.append (trampolineLoad run).data
      = some ⟨bytes.toList ++ run.tramp.blob, hloaded⟩ := by
    rw [Bytes.append_eq_some_iff, p.file]
    rfl
  have hload := (addLoadSegment_eq_some_iff run.file _ (trampolineLoad run)).mpr ⟨_, happend, rfl⟩
  rw [edits_cons_eq_some_iff]
  refine ⟨_, hload, ?_⟩
  rw [edits_cons_eq_some_iff]
  refine ⟨run.patched, ?_, rfl⟩
  rw [edit_patchBytesAt_eq_some_iff]
  refine ⟨run.patched.raw, ?_, ?_⟩
  . rw [Bytes.write_eq_some_iff]
    refine ⟨?_, hraw⟩
    show _ ≤ (bytes.toList ++ run.tramp.blob).length
    rw [List.length_append]
    unfold Bytes.size at hwindow
    omega
  . rw [hpatched, hsize]
    unfold Bytes.size
    rw [List.length_append]

theorem trampolineLoad_fits : Mutation.Fits (.addLoadSegment (trampolineLoad run)) := by
  have hsize := p.size_raw
  have hlt := run.patched.raw.size_lt
  have hT := run.trampolineAddr.isLt
  show (run.trampolineAddr.setWidth 64).toNat + run.tramp.blob.length < 2 ^ 64
  rw [BitVec.toNat_setWidth]
  omega

theorem mapped_patched (hmap : run.file.Mappable)
    : run.patched.Mappable ∧ run.patched.mapped = patchedImage run := by
  have ⟨hmap', hmapped⟩ := mapped_edits p.edits hmap (by
    intro mutation hmem
    simp only [List.mem_cons, List.not_mem_nil, or_false] at hmem
    cases hmem with
    | inl h => rw [h]; apply p.trampolineLoad_fits
    | inr h => rw [h]; trivial)
  refine ⟨hmap', ?_⟩
  rw [hmapped]
  unfold patchedImage
  have hT : (run.trampolineAddr.setWidth 64).toNat = run.trampolineAddr.toNat := by
    apply BitVec.toNat_setWidth_of_le
    decide
  rw [← hT]
  rfl

/--
Behind the header fields the output has the bytes of the file that is serialized.
-/
theorem getElem?_outBytes_of_clear (hclear : WindowClear run.file run.entry run.trampolineAddr) {i : Nat}
    (hi : i < run.patched.raw.size) (hfields : ¬ InFields i)
    : run.outBytes.toList[i]? = run.patched.raw.toList[i]? := by
  have hsize := p.size_raw
  have hwindow := p.window
  unfold InFields at hfields
  by_cases hin : run.entryOffset.toNat ≤ i ∧ i < run.entryOffset.toNat + run.tramp.entryPatchBytes.length
  . have hslice := congrArg (fun bs => bs[i - run.entryOffset.toNat]?) (p.slice_outBytes_of_clear hclear)
    rw [getElem?_slice, if_pos (by omega), Nat.add_sub_cancel' hin.left] at hslice
    rw [hslice, p.raw, getElem?_splice_of_mem _ _ _ _ _ hin.left hin.right]
    rw [List.length_append]
    unfold Bytes.size at hwindow
    omega
  . cases Nat.lt_or_ge i bytes.size with
    | inl hlt =>
      rw [p.getElem?_outBytes i hlt (by omega) (by omega) (by omega), p.getElem?_raw i hlt (by omega)]
    | inr hge =>
      have hslice := p.mutated.slice_withShdrs i 1 hge (by omega)
      have hfirst := congrArg (fun bs => bs[0]?) hslice
      rw [getElem?_slice, getElem?_slice, if_pos (by omega), if_pos (by omega), Nat.add_zero] at hfirst
      rw [p.toList_outBytes, hfirst]

theorem byteAt_reparsed (hmap : run.file.Mappable)
    (hclear : WindowClear run.file run.entry run.trampolineAddr) (vaddr : BitVec 64)
    (hfields : ∀ m, (patchedImage run).first vaddr.toNat = some m → ¬ InFields (m.place vaddr.toNat))
    : (reparsed run).byteAt vaddr = (patchedImage run).image vaddr.toNat := by
  have ⟨hmap', hmapped⟩ := p.mapped_patched hmap
  have hsize := p.size_outBytes
  have hraw := p.size_raw
  have hmap'' : (reparsed run).Mappable := by
    intro ph hph htype
    have ⟨hin, hend⟩ := hmap' ph hph htype
    refine ⟨?_, hend⟩
    show _ ≤ run.outBytes.size
    omega
  have hsame : (reparsed run).firstMatch vaddr.toNat = run.patched.firstMatch vaddr.toNat := rfl
  have hfirst := first_mapped hmap' vaddr.toNat
  rw [hmapped] at hfirst
  rw [byteAt_of_mappable hmap'', hsame, ← hmapped, ← byteAt_eq_mapped hmap', byteAt_of_mappable hmap']
  cases hph : run.patched.firstMatch vaddr.toNat with
  | none => rfl
  | some ph =>
    rw [hph] at hfirst
    apply p.getElem?_outBytes_of_clear hclear (place_lt hmap' hph)
    apply hfields _ hfirst

/--
The blob is where no loadable segment of the input is.
-/
theorem image_blob (hmap : run.file.Mappable) {i : Nat} (hi : i < run.tramp.blob.length)
    (hnot : ∀ ph ∈ run.file.segments, ¬ ph.Contains (run.trampolineAddr.toNat + i))
    : (patchedImage run).image (run.trampolineAddr.toNat + i) = run.tramp.blob[i]?
        ∧ ∀ m, (patchedImage run).first (run.trampolineAddr.toNat + i) = some m →
            m.place (run.trampolineAddr.toNat + i) = bytes.size + i := by
  have hwindow := p.window
  have hsize : run.file.mapped.size = bytes.size := by
    rw [p.file]
    rfl
  have hold : run.file.mapped.first (run.trampolineAddr.toNat + i) = none := by
    rw [first_mapped hmap]
    have : run.file.firstMatch (run.trampolineAddr.toNat + i) = none := by
      unfold firstMatch
      rw [List.find?_eq_none]
      intro ph hph
      simp [hnot ph hph]
    rw [this]
    rfl
  have hcontains : Mapping.Contains ⟨run.trampolineAddr.toNat, run.file.mapped.size, run.tramp.blob⟩
      (run.trampolineAddr.toNat + i) := by
    unfold Mapping.Contains
    dsimp only
    omega
  have hfirst : (run.file.mapped.append run.trampolineAddr.toNat run.tramp.blob).first
      (run.trampolineAddr.toNat + i)
        = some ⟨run.trampolineAddr.toNat, run.file.mapped.size, run.tramp.blob⟩ := by
    apply MappedFile.first_append_of_none hold hcontains
  have hplace : Mapping.place ⟨run.trampolineAddr.toNat, run.file.mapped.size, run.tramp.blob⟩
      (run.trampolineAddr.toNat + i) = bytes.size + i := by
    unfold Mapping.place
    dsimp only
    omega
  unfold patchedImage
  constructor
  . rw [MappedFile.image_overwrite hfirst, hplace, if_neg (by omega), MappedFile.image_eq_first, hfirst,
      Option.bind_some, Mapping.get_of_contains hcontains]
    dsimp only
    rw [Nat.add_sub_cancel_left]
  . intro m hm
    rw [MappedFile.first_overwrite, hfirst, Option.map_some, Option.some.injEq] at hm
    rw [← hm]
    apply hplace

theorem byteAt_blob (hmap : run.file.Mappable)
    (hclear : WindowClear run.file run.entry run.trampolineAddr) {i : Nat}
    (hi : i < run.tramp.blob.length)
    (hnot : ∀ ph ∈ run.file.segments, ¬ ph.Contains (run.trampolineAddr.toNat + i))
    : (reparsed run).byteAt (BitVec.ofNat 64 (run.trampolineAddr.toNat + i)) = run.tramp.blob[i]? := by
  have ⟨himage, hplace⟩ := p.image_blob hmap hi hnot
  have hraw := p.size_raw
  have hlt := run.patched.raw.size_lt
  have hT := run.trampolineAddr.isLt
  have haddr : (BitVec.ofNat 64 (run.trampolineAddr.toNat + i)).toNat = run.trampolineAddr.toNat + i := by
    rw [BitVec.toNat_ofNat, Nat.mod_eq_of_lt (by omega)]
  have hsize : 64 ≤ bytes.size := p.wellFormed.size
  rw [p.byteAt_reparsed hmap hclear, haddr, himage]
  rw [haddr]
  intro m hm
  rw [hplace m hm]
  unfold InFields
  omega

section Code

variable (hmap : run.file.Mappable) (hclear : WindowClear run.file run.entry run.trampolineAddr)
variable (hfree : ∀ i < run.tramp.blob.length, ∀ ph ∈ run.file.segments,
  ¬ ph.Contains (run.trampolineAddr.toNat + i))
include hmap hclear hfree

omit hmap hclear hfree in
/--
The address does not wrap, the code is smaller than the alignment of the segment.
-/
theorem toNat_codeAddr32 {count : Nat} (hcount : count < 100)
    : (run.trampolineAddr + 8 + BitVec.ofNat 32 (4 * count)).toNat
        =
      run.trampolineAddr.toNat + (8 + 4 * count) := by
  have hmod := pickTrampolineAddr_mod run.file
  have hT := run.trampolineAddr.isLt
  rw [← p.addr] at hmod
  rw [BitVec.toNat_add, BitVec.toNat_add, BitVec.toNat_ofNat]
  show ((_ + 8) % 2 ^ 32 + _) % 2 ^ 32 = _
  omega

theorem fetchAt_code {m : Nat} {words : List Instruction}
    (hlayout : BlobLayout run.file run.entry run.trampolineAddr path run.tramp
      run.tramp.displacedInstructionCount m words) {k : Nat} {w : Instruction} (hw : words[k]? = some w)
    : fetchAt (reparsed run) (run.trampolineAddr.toNat + 8 + 4 * k) = some w := by
  have ⟨pad, _, hblob⟩ := hlayout.blob_eq
  have hk := (List.getElem?_eq_some_iff.mp hw).choose
  have hword : slice run.tramp.blob (8 + 4 * k) 4 = toBigEndianBytes [w] := by
    rw [hblob, List.append_assoc, List.append_assoc]
    apply slice_toBigEndianBytes TRAMPOLINE_MAGIC _ words k w hw
  have hlen : 8 + 4 * words.length ≤ run.tramp.blob.length := by
    have hmagic : TRAMPOLINE_MAGIC.length = 8 := rfl
    rw [hblob]
    simp only [List.length_append, length_toBigEndianBytes, hmagic]
    omega
  apply fetchAt_of_bytes
  intro j hj
  have hbyte := p.byteAt_blob hmap hclear (i := 8 + 4 * k + j) (by omega) (hfree _ (by omega))
  rw [← hword, getElem?_slice, if_pos hj, ← hbyte]
  congr 2
  omega

theorem stringAt_path {m : Nat} {words : List Instruction}
    (hlayout : BlobLayout run.file run.entry run.trampolineAddr path run.tramp
      run.tramp.displacedInstructionCount m words) (hnul : 0 ∉ path)
    : StringAt (fun a => (reparsed run).byteAt (BitVec.ofNat 64 a)) 0
        (run.trampolineAddr.toNat + (8 + 4 * words.length)) path := by
  have ⟨pad, _, hblob⟩ := hlayout.blob_eq
  have hfront : (TRAMPOLINE_MAGIC ++ toBigEndianBytes words).length = 8 + 4 * words.length := by
    rw [List.length_append, length_toBigEndianBytes, Nat.mul_comm]
    rfl
  have hlen : run.tramp.blob.length = 8 + 4 * words.length + path.length + 1 + pad := by
    rw [hblob, List.length_append, List.length_append, List.length_append, hfront]
    simp
  have hbyte (i : Nat) (hi : 8 + 4 * words.length + i < run.tramp.blob.length)
      : (reparsed run).byteAt (BitVec.ofNat 64 (run.trampolineAddr.toNat + (8 + 4 * words.length) + i))
          = (path ++ [0] ++ List.replicate pad 0)[i]? := by
    rw [Nat.add_assoc, p.byteAt_blob hmap hclear hi (hfree _ hi), hblob, List.append_assoc,
      List.append_assoc, List.getElem?_append_right (by omega), hfront, Nat.add_sub_cancel_left,
      List.append_assoc]
  constructor
  . intro i hi
    rw [hbyte i (by omega), List.append_assoc, List.getElem?_append_left hi]
  . exact hnul
  . rw [hbyte path.length (by omega), List.append_assoc, List.getElem?_append_right (Nat.le_refl _),
      Nat.sub_self]
    rfl

end Code

end Patched

/--
The addresses are translated in the output as in the input, to the same bytes with the window overwritten and
the blob in addition. Only what is mapped from the two changed header fields is left out.
-/
theorem patch_image (inputPath : String) (bytes : Bytes) (path : List Byte) (run : Run)
    (h : patch inputPath bytes path = .ok run) (htame : Tame bytes) (hmap : run.file.Mappable)
    (hclear : WindowClear run.file run.entry run.trampolineAddr)
    : ∃ file, parseAny run.outBytes = .ok (.be64 file)
        ∧ ∀ vaddr, (∀ m, (patchedImage run).first vaddr.toNat = some m → ¬ InFields (m.place vaddr.toNat)) →
            file.byteAt vaddr = (patchedImage run).image vaddr.toNat := by
  have p := patched_of_patch inputPath bytes path run h
  have ⟨hsections, hcount⟩ := p.tame htame
  refine ⟨_, p.parseAny_outBytes hsections hcount, ?_⟩
  intro vaddr hfields
  apply p.byteAt_reparsed hmap hclear vaddr hfields

theorem mappable_plainSample : (fileOf true .Big plainSample).Mappable := by
  decide +kernel

theorem windowClear_plainSample {path : List Byte} {run : Run} (p : Patched plainSample path run)
    : WindowClear run.file run.entry run.trampolineAddr := by
  have ⟨hfile, hentry, haddr⟩ := p.plainSample_eq
  rw [hfile, hentry, haddr]
  apply chainClear_plainSample.window

theorem patch_image_plainSample
    : ∃ run file, patch "EBOOT.elf" plainSample [0x61] = .ok run
        ∧ parseAny run.outBytes = .ok (.be64 file)
        ∧ ∀ vaddr, (∀ m, (patchedImage run).first vaddr.toNat = some m → ¬ InFields (m.place vaddr.toNat)) →
            file.byteAt vaddr = (patchedImage run).image vaddr.toNat := by
  have ⟨run, hrun⟩ := exists_ok_of_isOk isOk_patch_plainSample
  have p := patched_of_patch _ _ _ _ hrun
  have hmap : run.file.Mappable := by
    rw [p.file]
    apply mappable_plainSample
  have ⟨file, hfile⟩ := patch_image _ _ _ _ hrun tame_plainSample hmap (windowClear_plainSample p)
  exact ⟨run, file, hrun, hfile⟩

/--
The two instructions in front of the first system call, at the offsets that their addresses are translated to,
load the address of the path, and the string that is there is the path.
-/
theorem patch_path_string (inputPath : String) (bytes : Bytes) (path : List Byte) (run : Run)
    (h : patch inputPath bytes path = .ok run) (htame : Tame bytes) (hmap : run.file.Mappable)
    (hclear : WindowClear run.file run.entry run.trampolineAddr)
    (hfree : ∀ i < run.tramp.blob.length, ∀ ph ∈ run.file.segments,
      ¬ ph.Contains (run.trampolineAddr.toNat + i))
    (hnul : 0 ∉ path)
    : ∃ file hi lo, parseAny run.outBytes = .ok (.be64 file)
        ∧ (fetchAt file (run.trampolineAddr.toNat + 8 + 4 * 16)).bind decode = some (.addis 3 0 hi)
        ∧ (fetchAt file (run.trampolineAddr.toNat + 8 + 4 * 17)).bind decode = some (.ori 3 3 lo)
        ∧ ∀ s, StringAt (fun a => file.byteAt (BitVec.ofNat 64 a)) 0 (hi ++ lo).toNat s ↔ s = path := by
  have p := patched_of_patch inputPath bytes path run h
  have ⟨hsections, hcount⟩ := p.tame htame
  have ⟨offset, originals, resumed, b⟩ := built_of_buildTrampoline _ _ _ _ _ p.built
  have hlayout := b.blobLayout
  have hwords := hlayout.words_length
  have hn := hlayout.displaced_count
  have hm := hlayout.jumpBack_count
  have ⟨hi, lo, hhi, hlo, haddr⟩ := hlayout.pathPointer
  rw [hlayout.displaced] at hlayout
  have fetched {k : Nat} {instr : Insn} (hk : (code run.entry run.trampolineAddr resumed)[k]?.bind decode
      = some instr)
      : (fetchAt (Patched.reparsed run) (run.trampolineAddr.toNat + 8 + 4 * k)).bind decode = some instr := by
    rw [Option.bind_eq_some_iff] at hk
    have ⟨w, hw, hdecode⟩ := hk
    rw [p.fetchAt_code hmap hclear hfree hlayout hw]
    exact hdecode
  have hvalue : (hi ++ lo).toNat
      = run.trampolineAddr.toNat + (8 + 4 * (code run.entry run.trampolineAddr resumed).length) := by
    rw [haddr, hwords]
    apply p.toNat_codeAddr32
    omega
  have hpath := p.stringAt_path hmap hclear hfree hlayout hnul
  refine ⟨_, hi, lo, p.parseAny_outBytes hsections hcount, fetched hhi, fetched hlo, ?_⟩
  intro s
  rw [hvalue]
  constructor
  . intro hs
    apply hs.unique hpath
  . intro hs
    rw [hs]
    apply hpath

theorem patch_path_string_plainSample
    : ∃ run file hi lo, patch "EBOOT.elf" plainSample [0x61] = .ok run
        ∧ parseAny run.outBytes = .ok (.be64 file)
        ∧ (fetchAt file (run.trampolineAddr.toNat + 8 + 4 * 16)).bind decode = some (.addis 3 0 hi)
        ∧ (fetchAt file (run.trampolineAddr.toNat + 8 + 4 * 17)).bind decode = some (.ori 3 3 lo)
        ∧ ∀ s, StringAt (fun a => file.byteAt (BitVec.ofNat 64 a)) 0 (hi ++ lo).toNat s ↔ s = [0x61] := by
  have ⟨run, hrun⟩ := exists_ok_of_isOk isOk_patch_plainSample
  have p := patched_of_patch _ _ _ _ hrun
  have ⟨hrunfile, _, haddr⟩ := p.plainSample_eq
  have hend : ∀ ph ∈ (fileOf true .Big plainSample).segments, ph.fileEnd ≤ 0x20000 := by
    decide +kernel
  have hmap : run.file.Mappable := by
    rw [p.file]
    apply mappable_plainSample
  have hfree : ∀ i < run.tramp.blob.length, ∀ ph ∈ run.file.segments,
      ¬ ph.Contains (run.trampolineAddr.toNat + i) := by
    intro i _ ph hph hcontains
    rw [hrunfile] at hph
    rw [haddr] at hcontains
    have hlt : 0x20000 + i < ph.fileEnd := hcontains.right.right
    have hle := hend ph hph
    omega
  have ⟨file, hi, lo, hfile⟩ := patch_path_string _ _ _ _ hrun tame_plainSample hmap
    (windowClear_plainSample p) hfree (by decide)
  exact ⟨run, file, hi, lo, hrun, hfile⟩

end Ps3patch
end ElfCraft
