import ElfCraft.Elf.Lemmas.Reload
import ElfCraft.Ps3patch.Lemmas.Session

/-!
This module contains the guard against patching twice over sessions: what has been done to an output since does not
matter for it, unless somebody overwrites the magic.
-/

namespace ElfCraft
namespace Ps3patch

open Binary Elf ElfFile

/--
The magic of a segment is at `pos`, behind the header and clear of the tables.
-/
structure Sealed (f : Ps3ElfFile) (pos : Nat) : Prop where
  holder : ∃ ph ∈ f.segments, ph.p_type = PT_LOAD ∧ 8 ≤ ph.p_filesz.toNat ∧ ph.p_offset.toNat = pos
  inside : pos + 8 ≤ f.raw.size
  magic : slice f.raw.toList pos 8 = TRAMPOLINE_MAGIC
  header : 64 ≤ pos
  phdrs : pos + 8 ≤ f.header.e_phoff.toNat ∨ f.header.e_phoff.toNat + f.segments.length * 56 ≤ pos
  shdrs : pos + 8 ≤ f.header.e_shoff.toNat ∨ f.header.e_shoff.toNat + f.sections.length * 64 ≤ pos

-- The action does not write to the magic at `pos`.
def Spares (pos : Nat) (action : Action) : Prop :=
  match action with
  | .edit (.patchBytesAt offset newBytes) => offset.toNat + newBytes.length ≤ pos ∨ pos + 8 ≤ offset.toNat
  | _ => True

instance (pos : Nat) (action : Action) : Decidable (Spares pos action) := by
  unfold Spares
  split <;> infer_instance

theorem Sealed.isAlreadyPatched {f : Ps3ElfFile} {pos : Nat} (s : Sealed f pos) : isAlreadyPatched f = true := by
  have ⟨ph, hph, hload, hfilesz, hpos⟩ := s.holder
  rw [isAlreadyPatched_eq_true_iff]
  refine ⟨ph, hph, hload, hfilesz, ?_, ?_⟩
  . rw [hpos]
    exact s.inside
  . rw [hpos]
    exact s.magic

theorem Sealed.of_raw {f : Ps3ElfFile} {pos : Nat} (s : Sealed f pos) {raw : Bytes} (hsize : f.raw.size ≤ raw.size)
    (hslice : slice raw.toList pos 8 = slice f.raw.toList pos 8)
    : Sealed { f with raw } pos := by
  refine { s with inside := ?_, magic := ?_ }
  . exact Nat.le_trans s.inside hsize
  . exact hslice.trans s.magic

theorem Sealed.patchBytesAt {f g : Ps3ElfFile} {pos : Nat} (s : Sealed f pos) {offset : BitVec 64}
    {newBytes : List Byte} (hspares : Spares pos (.edit (.patchBytesAt offset newBytes)))
    (h : f.mutate (.patchBytesAt offset newBytes) = some g)
    : Sealed g pos := by
  unfold mutate at h
  dsimp only at h
  split at h
  . next f' hpatch =>
    have ⟨raw, hwrite, hf'⟩ := (patchBytesAt_eq_ok_iff f f' offset newBytes).mp hpatch
    have ⟨hfits, hraw⟩ := (Bytes.write_eq_some_iff _ _ _ _).mp hwrite
    rw [← Option.some.inj h, hf']
    apply s.of_raw
    . unfold Bytes.size
      rw [hraw, length_splice _ _ _ hfits]
    . rw [hraw]
      apply slice_splice_of_disjoint
      . unfold Bytes.size at hfits
        omega
      . exact hspares.symm
  . rw [← Option.some.inj h]
    exact s

theorem Sealed.load {f g : Ps3ElfFile} {pos : Nat} (s : Sealed f pos) {call : LoadSegment} (h : f.load call = some g)
    : Sealed g pos := by
  have ⟨raw, hraw, hg⟩ := (addLoadSegment_eq_some_iff f g call).mp h
  rw [Bytes.append_eq_some_iff] at hraw
  have ⟨ph, hph, hholder⟩ := s.holder
  have hinside := s.inside
  have hwidth := raw.size_lt
  have hsize : raw.size = f.raw.size + call.data.length := by
    unfold Bytes.size
    rw [hraw, List.length_append]
  have hphoff : (f.header.withTable (BitVec.ofNat 64 raw.size)
      (BitVec.ofNat 16 (f.segments.length + 1))).e_phoff.toNat = raw.size := by
    rw [Ehdr.e_phoff_withTable _ _ _ (by exact BitVec.isLt _), BitVec.toNat_ofNat, Nat.mod_eq_of_lt (by omega)]
  rw [hg]
  constructor
  . exact ⟨ph, List.mem_append_left _ hph, hholder⟩
  . dsimp only
    omega
  . dsimp only
    rw [hraw, slice_append_left _ _ _ _ hinside]
    exact s.magic
  . exact s.header
  . left
    dsimp only
    omega
  . dsimp only
    rw [Ehdr.e_shoff_withTable]
    exact s.shdrs

theorem Sealed.of_serialize {f : Ps3ElfFile} {pos : Nat} (s : Sealed f pos) (hseparate : Separate f) {out : Bytes}
    (hout : f.serialize = some out)
    : Sealed { f with raw := out } pos := by
  have hphdr : (Phdr.codec true .Big).size = 56 := by
    rfl
  have hshdr : (Shdr.codec true .Big).size = 64 := by
    rfl
  have hphdrs := s.phdrs
  have hshdrs := s.shdrs
  apply s.of_raw (hseparate.size_le_out hout)
  apply slice_congr
  intro i hlower hupper
  apply hseparate.getElem?_out hout
  . exact Nat.le_trans s.header hlower
  . rw [hphdr]
    omega
  . rw [hshdr]
    omega

/--
One step that spares the magic keeps it.
-/
theorem Sealed.act {f g : Ps3ElfFile} {pos : Nat} (s : Sealed f pos) (hseparate : Separate f) {action : Action}
    (hspares : Spares pos action) (h : f.act action = some g)
    : Sealed g pos := by
  cases action with
  | reload =>
    have ⟨out, hout, hg⟩ := act_reload hseparate h
    rw [hg]
    exact s.of_serialize hseparate hout
  | edit mutation =>
    cases mutation with
    | setEntry addr =>
      have hphoff := e_phoff_setEntry f.header addr
      have hshoff := e_shoff_setEntry f.header addr
      have hphdrs := s.phdrs
      have hshdrs := s.shdrs
      rw [← hphoff] at hphdrs
      rw [← hshoff] at hshdrs
      rw [← Option.some.inj h]
      exact ⟨s.holder, s.inside, s.magic, s.header, hphdrs, hshdrs⟩
    | patchBytesAt offset newBytes => exact s.patchBytesAt hspares h
    | addLoadSegment call => exact s.load h

theorem Sealed.acts {f g : Ps3ElfFile} {pos : Nat} {actions : List Action} (s : Sealed f pos)
    (hseparate : Separate f) (hroom : f.AllRoom actions) (hspares : ∀ action ∈ actions, Spares pos action)
    (h : f.acts actions = some g)
    : Sealed g pos ∧ Separate g := by
  induction actions generalizing f with
  | nil =>
    rw [← Option.some.inj h]
    exact ⟨s, hseparate⟩
  | cons action actions ih =>
    have ⟨f', hact, hrest⟩ := (acts_cons_eq_some_iff f g action actions).mp h
    have ⟨hfirst, hnext⟩ := hroom
    have hseparate' := act_separate hseparate hfirst hact
    apply ih (s.act hseparate (hspares action List.mem_cons_self) hact) hseparate' (hnext f' hact)
    . intro action' hmem
      exact hspares action' (List.mem_cons_of_mem action hmem)
    . exact hrest

namespace Patched

variable {bytes : Bytes} {path : List Byte} {run : Run} (p : Patched bytes path run)
include p

theorem sealed_reparsed : Sealed { run.patched with raw := run.outBytes } bytes.size := by
  have ⟨offset, originals, resumed, b⟩ := built_of_buildTrampoline _ _ _ _ _ p.built
  have ⟨k, _, hblob⟩ := b.blobLayout.blob_eq
  have hraw := p.size_raw
  have hsize := p.size_outBytes
  have hphoff := p.mutated.e_phoff
  have hfit := p.mutated.shdrs_fit
  have hheader : 64 ≤ bytes.size := p.wellFormed.size
  have hmagic : slice run.tramp.blob 0 8 = TRAMPOLINE_MAGIC := by
    rw [hblob]
    rfl
  have hblobLength : 8 ≤ run.tramp.blob.length := by
    have hmagicLength : TRAMPOLINE_MAGIC.length = 8 := by
      rfl
    rw [hblob]
    simp only [List.length_append, hmagicLength]
    omega
  constructor
  . refine ⟨run.file.nextPhdr (trampolineLoad run), ?_, ?_, ?_, p.p_offset_new⟩
    . show _ ∈ run.patched.segments
      rw [p.segments]
      exact List.mem_append_right _ (List.mem_singleton_self _)
    . unfold nextPhdr
      apply Phdr.p_type_load
    . rw [p.p_filesz_new]
      exact hblobLength
  . dsimp only
    omega
  . have hslice := p.slice_outBytes_blob 0 8 (by omega)
    rw [Nat.add_zero, hmagic] at hslice
    exact hslice
  . exact hheader
  . left
    dsimp only
    omega
  . right
    rw [← p.mutated.sections_length] at hfit
    exact hfit

theorem separate_reparsed (htame : Tame bytes)
    (hshdrs : run.file.sections = [] ∨ 64 ≤ run.file.header.e_shoff.toNat)
    : Separate ({ run.patched with raw := run.outBytes } : Ps3ElfFile) := by
  have ⟨hsections, hcount⟩ := p.tame htame
  have r := p.reparsable hsections hcount
  have hparse := parse_of_wellFormed run.outBytes (r.wellFormed_out p.output)
  rw [r.fileOf_out p.output] at hparse
  have hraw := p.size_raw
  have hphoff := p.mutated.e_phoff
  have hfit := p.mutated.shdrs_fit
  have hheader : 64 ≤ bytes.size := p.wellFormed.size
  apply separate_of_parse hparse
  constructor
  . right
    show 64 ≤ run.patched.header.e_phoff.toNat
    omega
  . show run.patched.sections.length = 0 ∨ 64 ≤ run.patched.header.e_shoff.toNat
    rw [p.sections, p.header, Ehdr.e_shoff_withTable, List.length_eq_zero_iff]
    exact hshdrs
  . right; right; right
    rw [← p.mutated.sections_length] at hfit
    apply Nat.le_trans hfit
    show bytes.size ≤ run.patched.header.e_phoff.toNat
    omega

end Patched

/--
Whatever is done to an output, with as many saves and loads as there are, as long as the magic is not written to:
it is not patched again.
-/
theorem patch_seal (inputPath : String) (bytes : Bytes) (path : List Byte) (run : Run)
    (h : patch inputPath bytes path = .ok run) (htame : Tame bytes)
    (hshdrs : run.file.sections = [] ∨ 64 ≤ run.file.header.e_shoff.toNat)
    : ∃ file, parseAny run.outBytes = .ok (.be64 file)
        ∧ ∀ actions g, file.AllRoom actions → (∀ action ∈ actions, Spares bytes.size action) →
            file.acts actions = some g →
            isAlreadyPatched g = true ∧ ∀ out, g.serialize = some out →
              ∀ inputPath' path' run', patch inputPath' out path' ≠ .ok run' := by
  have p := patched_of_patch inputPath bytes path run h
  have ⟨hsections, hcount⟩ := p.tame htame
  refine ⟨_, p.parseAny_outBytes hsections hcount, ?_⟩
  intro actions g hroom hspares hacts
  have ⟨s, hseparate⟩ := p.sealed_reparsed.acts (p.separate_reparsed htame hshdrs) hroom hspares hacts
  refine ⟨s.isAlreadyPatched, ?_⟩
  intro out hout inputPath' path' run' h'
  have p' := patched_of_patch inputPath' out path' run' h'
  have hfresh := p'.fresh
  rw [p'.file, (hseparate.fileOf_out hout).right, (s.of_serialize hseparate hout).isAlreadyPatched] at hfresh
  contradiction

section Examples

-- A segment more, saved, another entry point and another byte in front of the magic.
def sealSession : List Action :=
  [.edit (.addLoadSegment { vaddr := 0x40000, data := [1, 2, 3, 4], flags := PF_R, align := 4 }), .reload,
    .edit (.setEntry 0x10000), .edit (.patchBytesAt 0x90 [0x12])]

theorem runs_sealSession
    : ((patch "EBOOT.elf" plainSample [0x61]).toOption.map fun run =>
        let file : Ps3ElfFile := { run.patched with raw := run.outBytes }
        decide (file.AllRoom sealSession) && (file.acts sealSession).isSome) = some true := by
  decide +kernel

theorem patch_seal_plainSample
    : ∃ run file g, patch "EBOOT.elf" plainSample [0x61] = .ok run
        ∧ parseAny run.outBytes = .ok (.be64 file)
        ∧ file.acts sealSession = some g ∧ isAlreadyPatched g = true := by
  have ⟨run, hrun⟩ := exists_ok_of_isOk isOk_patch_plainSample
  have p := patched_of_patch _ _ _ _ hrun
  have ⟨hsections, hcount⟩ := p.tame tame_plainSample
  have hnil : run.file.sections = [] := by
    rw [p.file]
    decide +kernel
  have ⟨file, hparse, hfile⟩ := patch_seal _ _ _ _ hrun tame_plainSample (.inl hnil)
  have hsame := p.parseAny_outBytes hsections hcount
  rw [hparse, Except.ok.injEq, AnyElfFile.be64.injEq] at hsame
  have hruns := runs_sealSession
  rw [hrun] at hruns
  replace hruns := Option.some.inj hruns
  dsimp only at hruns
  rw [← hsame, Bool.and_eq_true, decide_eq_true_eq, Option.isSome_iff_exists] at hruns
  have ⟨hroom, g, hg⟩ := hruns
  have ⟨hpatched, _⟩ := hfile sealSession g hroom (by decide +kernel) hg
  exact ⟨run, file, g, hrun, hparse, hg, hpatched⟩

end Examples

end Ps3patch
end ElfCraft
