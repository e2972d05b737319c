import ElfCraft.Exec.Decisive
import ElfCraft.Ps3patch.Lemmas.Report

/-!
This module contains sessions that give the same job to the tool again and again: which of the attempts is the
one whose result stays.
-/

namespace ElfCraft
namespace Ps3patch

open Binary Elf Exec

variable {File : Type}

namespace Invocation

/--
The file that the invocation opens for its output, with what arrives in it.
-/
def writes (resolve : Arg → File) (inv : Invocation) (files : File → Option Bytes) : Option (File × Bytes) :=
  match inv.args with
  | [inputPath, outputPath, sprxPath] =>
    match files (resolve inputPath) with
    | none => none
    | some bytes =>
      match patch inputPath.text bytes sprxPath with
      | .error _ => none
      | .ok run =>
        if inv.outcome.opened then
          some (resolve outputPath, arrived run.outBytes inv.outcome.kept)
        else
          none
  | _ => none

/--
If the invocation is one of the patch mode, it makes `target` of `source`.
-/
def Between (resolve : Arg → File) (source target : File) (inv : Invocation) : Prop :=
  ∀ inputPath outputPath sprxPath, inv.args = [inputPath, outputPath, sprxPath] →
    resolve inputPath = source ∧ resolve outputPath = target

theorem writes_eq_some_iff (resolve : Arg → File) (inv : Invocation) (world : World File) (file : File)
    (bytes : Bytes)
    : inv.writes resolve world.files = some (file, bytes)
        ↔
      inv.outcome.opened = true ∧ ∃ outputPath run, inv.Patches resolve world outputPath run
        ∧ file = resolve outputPath ∧ bytes = arrived run.outBytes inv.outcome.kept := by
  constructor
  . intro h
    unfold writes at h
    split at h
    . next inputPath outputPath sprxPath hargs =>
      split at h
      . contradiction
      . next bytes' hread =>
        split at h
        . contradiction
        . next run hpatch =>
          split at h
          . next hopened =>
            rw [Option.some.injEq, Prod.mk.injEq] at h
            refine ⟨hopened, outputPath, run, ?_, h.left.symm, h.right.symm⟩
            exact ⟨inputPath, sprxPath, bytes', hargs, hread, hpatch⟩
          . contradiction
    . contradiction
  . intro ⟨hopened, outputPath, run, ⟨inputPath, sprxPath, bytes', hargs, hread, hpatch⟩, hfile, hbytes⟩
    unfold writes
    rw [hargs]
    dsimp only
    rw [hread]
    dsimp only
    rw [hpatch]
    dsimp only
    rw [if_pos hopened, hfile, hbytes]

variable {resolve : Arg → File} {source target : File} {inv : Invocation}

theorem Between.writes_congr (h : inv.Between resolve source target) {files files' : File → Option Bytes}
    (hsame : files source = files' source)
    : inv.writes resolve files = inv.writes resolve files' := by
  unfold writes
  split
  . next inputPath outputPath sprxPath hargs =>
    rw [(h _ _ _ hargs).left, hsame]
  . rfl

theorem Between.target_of_writes (h : inv.Between resolve source target) {files : File → Option Bytes} {file : File}
    {bytes : Bytes} (hwrites : inv.writes resolve files = some (file, bytes))
    : file = target := by
  have hpatches := (writes_eq_some_iff resolve inv { files, stdout := "", stderr := "" } file bytes).mp hwrites
  have ⟨_, outputPath, run, ⟨inputPath, sprxPath, bytes', hargs, _⟩, hfile, _⟩ := hpatches
  rw [hfile]
  exact (h _ _ _ hargs).right

end Invocation

-- Whether the invocation writes to a file.
def isWriter (resolve : Arg → File) (files : File → Option Bytes) (inv : Invocation) : Bool :=
  (inv.writes resolve files).isSome

theorem writes_of_isWriter {resolve : Arg → File} {files : File → Option Bytes} {inv : Invocation}
    {source target : File} (hbetween : inv.Between resolve source target) (h : isWriter resolve files inv = true)
    : ∃ bytes, inv.writes resolve files = some (target, bytes) := by
  have ⟨⟨file, bytes⟩, hwrites⟩ := Option.isSome_iff_exists.mp h
  rw [hbetween.target_of_writes hwrites] at hwrites
  exact ⟨bytes, hwrites⟩

variable [DecidableEq File]

def store (files : File → Option Bytes) (written : Option (File × Bytes)) : File → Option Bytes :=
  match written with
  | none => files
  | some (file, bytes) => fun file' => if file' = file then some bytes else files file'

theorem store_self (files : File → Option Bytes) (file : File) (bytes : Bytes)
    : store files (some (file, bytes)) file = some bytes := by
  apply if_pos rfl

theorem store_of_ne (files : File → Option Bytes) {file file' : File} (bytes : Bytes) (h : file' ≠ file)
    : store files (some (file, bytes)) file' = files file' := by
  apply if_neg h

theorem store_store (files : File → Option Bytes) (file : File) (bytes bytes' : Bytes)
    : store (store files (some (file, bytes))) (some (file, bytes')) = store files (some (file, bytes')) := by
  funext file'
  by_cases h : file' = file
  . rw [h, store_self, store_self]
  . rw [store_of_ne _ _ h, store_of_ne _ _ h, store_of_ne _ _ h]

section Session

variable {resolve : Arg → File} {world : World File}

/--
All that an invocation does to the files.
-/
theorem files_invoke (resolve : Arg → File) (world : World File) (inv : Invocation)
    : (inv.invoke resolve world).1.files = store world.files (inv.writes resolve world.files) := by
  cases hwrites : inv.writes resolve world.files with
  | some written =>
    have ⟨hopened, outputPath, run, hpatches, hfile, hbytes⟩ := (inv.writes_eq_some_iff resolve world _ _).mp hwrites
    rw [files_invoke_of_patches hpatches hopened, ← hfile, ← hbytes]
    rfl
  | none =>
    have hnot (outputPath : Arg) (run : Run) (hpatches : inv.Patches resolve world outputPath run)
        : inv.outcome.opened ≠ true := by
      intro hopened
      have hsome := (inv.writes_eq_some_iff resolve world _ _).mpr ⟨hopened, _, _, hpatches, rfl, rfl⟩
      rw [hwrites] at hsome
      contradiction
    have heffect := effect_invoke resolve world inv
    generalize inv.invoke resolve world = result at heffect
    cases heffect with
    | refused => rfl
    | described => rfl
    | wrote outputPath run _ hpatches hopened _ => exact absurd hopened (hnot _ _ hpatches)
    | broke outputPath run _ _ hpatches hopened _ _ => exact absurd hopened (hnot _ _ hpatches)
    | terminated => rfl

def attempt (resolve : Arg → File) (files : File → Option Bytes) (inv : Invocation) : File → Option Bytes :=
  store files (inv.writes resolve files)

theorem files_session (resolve : Arg → File) (world : World File) (invs : List Invocation)
    : (session resolve world invs).files = invs.foldl (attempt resolve) world.files := by
  unfold session
  rw [List.foldl_hom World.files]
  intro world inv
  exact (files_invoke resolve world inv).symm

theorem attempt_of_idle (files : File → Option Bytes) (inv : Invocation) (h : isWriter resolve files inv = false)
    : attempt resolve files inv = files := by
  unfold attempt
  rw [Option.isNone_iff_eq_none.mp (Option.isSome_eq_false_iff.mp h)]
  rfl

theorem attempt_of_writes {files : File → Option Bytes} {inv : Invocation} {file : File} {bytes : Bytes}
    (h : inv.writes resolve files = some (file, bytes))
    : attempt resolve files inv = store files (some (file, bytes)) := by
  unfold attempt
  rw [h]

/--
Attempts that do not write to what they read: each one finds the same input.
-/
theorem attempt_source {source target : File} (hne : source ≠ target) (files : File → Option Bytes)
    {inv : Invocation} (hbetween : inv.Between resolve source target)
    : attempt resolve files inv source = files source := by
  cases hwriter : isWriter resolve files inv with
  | false => rw [attempt_of_idle files inv hwriter]
  | true =>
    have ⟨bytes, hwrites⟩ := writes_of_isWriter hbetween hwriter
    rw [attempt_of_writes hwrites]
    apply store_of_ne files bytes hne

theorem attempt_attempt {source target : File} (hne : source ≠ target) (files : File → Option Bytes)
    {inv inv' : Invocation} (hbetween : inv.Between resolve source target)
    (hbetween' : inv'.Between resolve source target) (h : isWriter resolve files inv' = true)
    : attempt resolve (attempt resolve files inv) inv' = attempt resolve files inv' := by
  have ⟨bytes', hwrites'⟩ := writes_of_isWriter hbetween' h
  have hagain := hbetween'.writes_congr (attempt_source hne files hbetween)
  rw [hwrites'] at hagain
  rw [attempt_of_writes hagain, attempt_of_writes hwrites']
  cases hwriter : isWriter resolve files inv with
  | false => rw [attempt_of_idle files inv hwriter]
  | true =>
    have ⟨bytes, hwrites⟩ := writes_of_isWriter hbetween hwriter
    rw [attempt_of_writes hwrites]
    apply store_store

/--
Attempts that write to what they read: what the first one leaves there is not patched.
-/
theorem isWriter_attempt {file : File} {files : File → Option Bytes}
    (htame : ∀ bytes, files file = some bytes → Tame bytes) {inv inv' : Invocation}
    (hbetween : inv.Between resolve file file) (hbetween' : inv'.Between resolve file file)
    (h : isWriter resolve files inv = true)
    : isWriter resolve (attempt resolve files inv) inv' = false := by
  have ⟨bytes, hwrites⟩ := writes_of_isWriter hbetween h
  have ⟨_, _, run, ⟨inputPath, _, bytes₀, hargs, hread, hpatch⟩, _, hbytes⟩ :=
    (inv.writes_eq_some_iff resolve { files, stdout := "", stderr := "" } file bytes).mp hwrites
  have hinput := (hbetween _ _ _ hargs).left
  rw [attempt_of_writes hwrites]
  apply Decidable.by_contra
  intro hagain
  have ⟨bytes', hwrites'⟩ := writes_of_isWriter hbetween' (Bool.eq_true_of_not_eq_false hagain)
  have ⟨_, _, run', ⟨inputPath', _, bytes₁, hargs', hread', hpatch'⟩, _, _⟩ :=
    (inv'.writes_eq_some_iff resolve { files := store files (some (file, bytes)), stdout := "", stderr := "" } file
      bytes').mp hwrites'
  dsimp only at hread hread'
  rw [hinput] at hread
  rw [(hbetween' _ _ _ hargs').left, store_self, Option.some.injEq] at hread'
  rw [← hread', hbytes] at hpatch'
  exact not_patch_arrived hpatch (htame _ hread) _ _ _ _ hpatch'

/--
The attempt that counts: the first one that writes if it overwrites its input, the last one otherwise.
-/
def decisive (resolve : Arg → File) (world : World File) (source target : File) (invs : List Invocation)
    : Option Invocation :=
  let writers := invs.filter (isWriter resolve world.files)
  if source = target then
    writers.head?
  else
    writers.getLast?

/--
However often a file is patched into another one, or in place, with whatever plugin and whatever happens to the
writes: the files are in the end as if the decisive attempt had been the only one.
-/
theorem session_decisive (resolve : Arg → File) (world : World File) (source target : File)
    (htame : source = target → ∀ bytes, world.files source = some bytes → Tame bytes) (invs : List Invocation)
    (hbetween : ∀ inv ∈ invs, inv.Between resolve source target)
    : (session resolve world invs).files
        =
      (session resolve world (decisive resolve world source target invs).toList).files := by
  rw [files_session, files_session]
  unfold decisive
  have hidle (files : File → Option Bytes) (inv : Invocation) (_ : inv.Between resolve source target)
      (h : isWriter resolve files inv = false)
      : attempt resolve files inv = files := by
    apply attempt_of_idle files inv h
  by_cases hplace : source = target
  . rw [if_pos hplace]
    apply foldl_eq_first hidle _ invs hbetween
    intro inv inv' hinv hinv' h
    rw [← hplace] at hinv hinv'
    apply isWriter_attempt (htame hplace) hinv hinv' h
  . rw [if_neg hplace]
    apply foldl_eq_last hidle _ _ invs hbetween
    . intro inv inv' hinv hinv'
      unfold isWriter
      rw [hinv'.writes_congr (attempt_source hplace world.files hinv)]
    . intro inv inv' hinv hinv' h
      apply attempt_attempt hplace world.files hinv hinv' h

section Examples

-- `ps3patch EBOOT.elf OUT.elf a`, or with `EBOOT.elf` as the output.
def attemptInvocation (outputPath : Arg) (kept : Nat) : Invocation where
  outcome := { opened := true, accepted := true, kept }
  argv0 := []
  args := [ebootArg, outputPath, sprxArg]

theorem between_attemptInvocation (outputPath : Arg) (kept : Nat)
    : (attemptInvocation outputPath kept).Between id ebootArg outputPath := by
  intro inputPath outputPath' sprxPath hargs
  injection hargs with hinput hargs
  injection hargs with houtput
  exact ⟨hinput.symm, houtput.symm⟩

theorem between_of_mem {outputPath : Arg} {kept kept' : Nat}
    : ∀ inv ∈ [attemptInvocation outputPath kept, attemptInvocation outputPath kept'],
        inv.Between id ebootArg outputPath := by
  intro inv hmem
  rw [List.mem_pair] at hmem
  cases hmem with
  | inl h =>
    rw [h]
    apply between_attemptInvocation
  | inr h =>
    rw [h]
    apply between_attemptInvocation

theorem isWriter_attemptInvocation (outputPath : Arg) (kept : Nat)
    : isWriter id plainWorld.files (attemptInvocation outputPath kept) = true := by
  have ⟨run, hrun⟩ := exists_ok_of_isOk isOk_patch_plainSample
  have htext : ebootArg.text = "EBOOT.elf" := by
    decide
  have hpatches : (attemptInvocation outputPath kept).Patches id plainWorld outputPath run := by
    refine ⟨ebootArg, sprxArg, plainSample, rfl, rfl, ?_⟩
    rw [htext]
    exact hrun
  unfold isWriter
  rw [((attemptInvocation outputPath kept).writes_eq_some_iff id plainWorld _ _).mpr
    ⟨rfl, outputPath, run, hpatches, rfl, rfl⟩]
  rfl

theorem filter_isWriter_attempts (outputPath : Arg) (kept kept' : Nat)
    : [attemptInvocation outputPath kept, attemptInvocation outputPath kept'].filter (isWriter id plainWorld.files)
        =
      [attemptInvocation outputPath kept, attemptInvocation outputPath kept'] := by
  rw [List.filter_cons_of_pos (isWriter_attemptInvocation _ _),
    List.filter_cons_of_pos (isWriter_attemptInvocation _ _), List.filter_nil]

/--
Torn, then whole: the second attempt counts if there is an output of its own, the first one in place.
-/
theorem session_decisive_plainWorld
    : (session id plainWorld [attemptInvocation outArg 100, attemptInvocation outArg 1000]).files
        =
      (session id plainWorld [attemptInvocation outArg 1000]).files
      ∧ (session id plainWorld [attemptInvocation ebootArg 100, attemptInvocation ebootArg 1000]).files
        =
      (session id plainWorld [attemptInvocation ebootArg 100]).files := by
  constructor
  . have h := session_decisive id plainWorld ebootArg outArg (fun _ => tame_plainWorld ebootArg)
      [attemptInvocation outArg 100, attemptInvocation outArg 1000] between_of_mem
    unfold decisive at h
    rw [if_neg (by decide), filter_isWriter_attempts] at h
    exact h
  . have h := session_decisive id plainWorld ebootArg ebootArg (fun _ => tame_plainWorld ebootArg)
      [attemptInvocation ebootArg 100, attemptInvocation ebootArg 1000] between_of_mem
    unfold decisive at h
    rw [if_pos rfl, filter_isWriter_attempts] at h
    exact h

end Examples

end Session

end Ps3patch
end ElfCraft
