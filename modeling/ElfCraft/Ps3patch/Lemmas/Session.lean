import ElfCraft.Ps3patch.Lemmas.Cli
import Mathlib.Data.List.Induction

/-!
This module contains sessions: invocations of the tool, one after the other, on the same files. No file is
patched twice, whatever the order of the invocations is and however their writes go.
-/

namespace ElfCraft
namespace Ps3patch

open Binary Elf ElfFile

section Torn

variable {is64 : Bool} {E : Endian}

theorem size_arrived_le (bytes : Bytes) (kept : Nat) : (arrived bytes kept).size ≤ kept := by
  apply List.length_take_le

theorem arrived_of_size_le {bytes : Bytes} {kept : Nat} (h : bytes.size ≤ kept)
    : arrived bytes kept = bytes := by
  apply Bytes.ext
  apply List.take_of_length_le h

theorem getElem?_arrived {bytes : Bytes} {kept i : Nat} (h : i < kept)
    : (arrived bytes kept).toList[i]? = bytes.toList[i]? := by
  apply List.getElem?_take_of_lt h

theorem headerOf_arrived {bytes : Bytes} {kept : Nat} (h : (Ehdr.codec is64 E).size ≤ kept)
    : headerOf is64 E (arrived bytes kept) = headerOf is64 E bytes := by
  unfold headerOf
  congr 1
  apply slice_congr
  intro i _ hi
  apply getElem?_arrived
  omega

theorem selects_arrived {bytes : Bytes} {kept : Nat} (h : EI_NIDENT ≤ kept)
    (hselects : Selects (arrived bytes kept) is64 E)
    : Selects bytes is64 E := by
  have hclass := hselects.class_byte
  have hdata := hselects.data_byte
  have hclass_lt : EI_CLASS < kept := Nat.lt_of_lt_of_le (by decide) h
  have hdata_lt : EI_DATA < kept := Nat.lt_of_lt_of_le (by decide) h
  rw [List.getD_eq_getElem?_getD, getElem?_arrived hclass_lt, ← List.getD_eq_getElem?_getD] at hclass
  rw [List.getD_eq_getElem?_getD, getElem?_arrived hdata_lt, ← List.getD_eq_getElem?_getD] at hdata
  exact ⟨hclass, hdata⟩

/--
A file whose program headers are its end is not accepted when a part of it is missing.
-/
theorem parseAny_arrived_ne_ok {bytes : Bytes} (hwf : WellFormed is64 E bytes)
    (hend : (headerOf is64 E bytes).e_phoff.toNat
      + (headerOf is64 E bytes).e_phnum.toNat * (Phdr.codec is64 E).size = bytes.size)
    {kept : Nat} (hkept : kept < bytes.size) (file : AnyElfFile)
    : parseAny (arrived bytes kept) ≠ .ok file := by
  intro hparse
  rw [parseAny_eq_ok_iff] at hparse
  have ⟨is64', E', hwf', _⟩ := hparse
  have hsize := size_arrived_le bytes kept
  have hident := sizeof_Ehdr_ge is64' E'
  have hheader := hwf'.size
  have hselects := selects_arrived (by omega) (Selects.of_wellFormed _ hwf')
  have ⟨h64, hE⟩ := Selects.unique bytes hselects (Selects.of_wellFormed _ hwf)
  subst h64
  subst hE
  have hfit := hwf'.phdrs_fit
  rw [headerOf_arrived (by omega)] at hfit
  omega

end Torn

/--
An input whose patch can be read back: its section header table stays off the header fields that the patch
writes, and its program headers can be counted in 16 bits when there is one more.
-/
def Tame (bytes : Bytes) : Prop :=
  ∀ file, parseAny bytes = .ok (.be64 file) → file.SectionsClear ∧ file.segments.length < 65535

section Output

variable {inputPath : String} {bytes : Bytes} {path : List Byte} {run : Run}

theorem Patched.tame (p : Patched bytes path run) (htame : Tame bytes)
    : run.file.SectionsClear ∧ (headerOf true .Big bytes).e_phnum.toNat < 65535 := by
  have h := htame run.file (by rw [parseAny_of_wellFormed bytes p.wellFormed, p.file]; rfl)
  rw [p.length_old] at h
  exact h

theorem Patched.size_le_of_parseAny (p : Patched bytes path run) (htame : Tame bytes) {kept : Nat}
    {file : AnyElfFile} (hparse : parseAny (arrived run.outBytes kept) = .ok file)
    : run.outBytes.size ≤ kept := by
  have ⟨hclear, hcount⟩ := p.tame htame
  have hlength := p.length_segments
  have r := p.reparsable hclear hcount
  have hheader := p.mutated.headerOf_out (p.clear_patched hclear) p.output
  apply Decidable.by_contra
  intro hkept
  apply parseAny_arrived_ne_ok (r.wellFormed_out p.output) _ (by omega) file hparse
  rw [hheader, p.mutated.e_phoff, p.mutated.toNat_e_phnum (by omega)]
  rw [p.size_raw, p.size_outBytes, p.length_segments, Nat.mul_comm 56]
  rfl

/--
Only the whole output of a run is a file that the parser accepts, no front part of it is.
-/
theorem patch_output_whole (h : patch inputPath bytes path = .ok run) (htame : Tame bytes) (kept : Nat)
    : (∃ file, parseAny (arrived run.outBytes kept) = .ok file) ↔ run.outBytes.size ≤ kept := by
  have p := patched_of_patch inputPath bytes path run h
  constructor
  . intro ⟨file, hparse⟩
    apply p.size_le_of_parseAny htame hparse
  . intro hkept
    have ⟨hclear, hcount⟩ := p.tame htame
    rw [arrived_of_size_le hkept]
    exact ⟨_, p.parseAny_outBytes hclear hcount⟩

theorem Patched.plainSample_eq {path : List Byte} {run : Run} (p : Patched plainSample path run)
    : run.file = fileOf true .Big plainSample ∧ run.entry = ⟨0x10080, 0x30000, 0⟩
        ∧ run.trampolineAddr = 0x20000 := by
  have hentry : resolveEntryDescriptor (fileOf true .Big plainSample) = .ok ⟨0x10080, 0x30000, 0⟩ := by
    decide +kernel
  have haddr : pickTrampolineAddr (fileOf true .Big plainSample) = 0x20000 := by
    decide +kernel
  have hentry' := p.entry
  rw [p.file, hentry, Except.ok.injEq] at hentry'
  refine ⟨p.file, hentry'.symm, ?_⟩
  rw [p.addr, p.file, haddr]

theorem tame_plainSample : Tame plainSample := by
  have hfile : ps3ElfFileOf plainSample = some (fileOf true .Big plainSample) := by
    have ⟨run, hrun⟩ := exists_ok_of_isOk isOk_patch_plainSample
    have p := patched_of_patch _ _ _ _ hrun
    apply ps3ElfFileOf_of_parseAny
    apply parseAny_of_wellFormed plainSample p.wellFormed
  intro file hparse
  rw [ps3ElfFileOf_of_parseAny hparse, Option.some.injEq] at hfile
  rw [hfile]
  constructor
  . left
    decide +kernel
  . decide +kernel

theorem patch_output_whole_plainSample
    : ∃ run, patch "EBOOT.elf" plainSample [0x61] = .ok run
        ∧ ((∃ file, parseAny (arrived run.outBytes 500) = .ok file) ↔ run.outBytes.size ≤ 500) := by
  have ⟨run, hrun⟩ := exists_ok_of_isOk isOk_patch_plainSample
  exact ⟨run, hrun, patch_output_whole hrun tame_plainSample 500⟩

/--
What is written of an output is never patched: a part of it does not parse, the whole of it is recognized.
-/
theorem not_patch_arrived (h : patch inputPath bytes path = .ok run) (htame : Tame bytes) (kept : Nat)
    (inputPath' : String) (path' : List Byte) (run' : Run)
    : patch inputPath' (arrived run.outBytes kept) path' ≠ .ok run' := by
  intro h'
  have p := patched_of_patch inputPath bytes path run h
  have p' := patched_of_patch inputPath' _ path' run' h'
  have ⟨hclear, hcount⟩ := p.tame htame
  have hparse := parseAny_of_wellFormed _ p'.wellFormed
  have hwhole := arrived_of_size_le (p.size_le_of_parseAny htame hparse)
  have r := p.reparsable hclear hcount
  have hfresh := p'.fresh
  rw [p'.file, hwhole, r.fileOf_out p.output, p.isAlreadyPatched_out] at hfresh
  exact Bool.noConfusion hfresh

end Output

section Session

variable {File : Type}

/--
The file has what an invocation of the session makes of a file that was there in the beginning.
-/
def Derived (resolve : Arg → File) (world : World File) (invs : List Invocation) (file : File)
    (bytes : Bytes) : Prop :=
  ∃ inv ∈ invs, ∃ outputPath run, inv.Patches resolve world outputPath run ∧ file = resolve outputPath
    ∧ bytes = arrived run.outBytes inv.outcome.kept

variable {resolve : Arg → File} {world : World File}

theorem Derived.mono {invs : List Invocation} {file : File} {bytes : Bytes}
    (h : Derived resolve world invs file bytes) (inv : Invocation)
    : Derived resolve world (invs ++ [inv]) file bytes := by
  have ⟨inv', hmem, hderived⟩ := h
  exact ⟨inv', List.mem_append_left _ hmem, hderived⟩

theorem Derived.not_patch {invs : List Invocation} {file : File} {bytes : Bytes}
    (h : Derived resolve world invs file bytes)
    (htame : ∀ file bytes, world.files file = some bytes → Tame bytes) (inputPath : String)
    (path : List Byte) (run : Run)
    : patch inputPath bytes path ≠ .ok run := by
  have ⟨inv, _, outputPath, run₀, ⟨inputPath₀, sprxPath₀, bytes₀, _, hread₀, hpatch₀⟩, _, hbytes⟩ := h
  rw [hbytes]
  apply not_patch_arrived hpatch₀ (htame _ _ hread₀)

variable [DecidableEq File]

def session (resolve : Arg → File) (world : World File) (invs : List Invocation) : World File :=
  invs.foldl (fun world inv => (inv.invoke resolve world).1) world

theorem session_snoc (resolve : Arg → File) (world : World File) (invs : List Invocation) (inv : Invocation)
    : session resolve world (invs ++ [inv]) = (inv.invoke resolve (session resolve world invs)).1 := by
  apply List.foldl_append

/--
Every file of a session is one that was there in the beginning or derived from one by a single patch, so
what is patched next was there in the beginning.
-/
structure PatchedOnce (resolve : Arg → File) (world : World File) (invs : List Invocation) : Prop where
  contents : ∀ file bytes, (session resolve world invs).files file = some bytes →
    world.files file = some bytes ∨ Derived resolve world invs file bytes
  originals : ∀ (inv : Invocation) outputPath run,
    inv.Patches resolve (session resolve world invs) outputPath run → inv.Patches resolve world outputPath run

theorem originals_of_contents {invs : List Invocation}
    (htame : ∀ file bytes, world.files file = some bytes → Tame bytes)
    (hcontents : ∀ file bytes, (session resolve world invs).files file = some bytes →
      world.files file = some bytes ∨ Derived resolve world invs file bytes)
    (inv : Invocation) (outputPath : Arg) (run : Run)
    (h : inv.Patches resolve (session resolve world invs) outputPath run)
    : inv.Patches resolve world outputPath run := by
  have ⟨inputPath, sprxPath, bytes, hargs, hread, hpatch⟩ := h
  cases hcontents _ bytes hread with
  | inl horiginal => exact ⟨inputPath, sprxPath, bytes, hargs, horiginal, hpatch⟩
  | inr hderived => exact absurd hpatch (hderived.not_patch htame _ _ _)

theorem session_contents (htame : ∀ file bytes, world.files file = some bytes → Tame bytes)
    (invs : List Invocation) (file : File) (bytes : Bytes)
    (h : (session resolve world invs).files file = some bytes)
    : world.files file = some bytes ∨ Derived resolve world invs file bytes := by
  induction invs using List.reverseRecOn generalizing file bytes with
  | nil => exact Or.inl h
  | append_singleton invs inv ih =>
    have haccounted := accounted_of_effect (effect_invoke resolve (session resolve world invs) inv)
    rw [session_snoc] at h
    by_cases hsame : (inv.invoke resolve (session resolve world invs)).1.files file
        = (session resolve world invs).files file
    . rw [hsame] at h
      cases ih file bytes h with
      | inl horiginal => exact Or.inl horiginal
      | inr hderived => exact Or.inr (hderived.mono inv)
    . have ⟨outputPath, run, hpatches, hfile, hwritten⟩ := haccounted.changed file hsame
      have horiginal := originals_of_contents htame ih inv outputPath run hpatches
      rw [h, Option.some.injEq] at hwritten
      exact Or.inr ⟨inv, by simp, outputPath, run, horiginal, hfile, hwritten⟩

theorem session_patchedOnce (resolve : Arg → File) (world : World File)
    (htame : ∀ file bytes, world.files file = some bytes → Tame bytes) (invs : List Invocation)
    : PatchedOnce resolve world invs := by
  constructor
  . apply session_contents htame
  . apply originals_of_contents htame
    apply session_contents htame

section Examples

-- "EBOOT.elf", "OUT.elf" and "a"
def ebootArg : Arg := [0x45, 0x42, 0x4F, 0x4F, 0x54, 0x2E, 0x65, 0x6C, 0x66]
def outArg : Arg := [0x4F, 0x55, 0x54, 0x2E, 0x65, 0x6C, 0x66]
def sprxArg : Arg := [0x61]

-- Every path names a file of its own, one of them is there.
def plainWorld : World Arg where
  files path := if path = ebootArg then some plainSample else none
  stdout := ""
  stderr := ""

def patchInvocation (inputPath : Arg) (kept : Nat) : Invocation where
  outcome := { opened := true, accepted := true, kept }
  argv0 := []
  args := [inputPath, outArg, sprxArg]

theorem tame_plainWorld (path : Arg) (bytes : Bytes) (h : plainWorld.files path = some bytes)
    : Tame bytes := by
  unfold plainWorld at h
  dsimp only at h
  split at h
  . rw [← Option.some.inj h]
    apply tame_plainSample
  . contradiction

theorem session_patchedOnce_plainWorld
    : PatchedOnce id plainWorld
        [patchInvocation ebootArg 100, patchInvocation ebootArg 1000, patchInvocation outArg 1000] := by
  apply session_patchedOnce id plainWorld tame_plainWorld

end Examples

end Session

end Ps3patch
end ElfCraft
