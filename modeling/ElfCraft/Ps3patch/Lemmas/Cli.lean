import ElfCraft.Ps3patch.Cli
import ElfCraft.Ps3patch.Lemmas.Reparse

/-!
This module contains what an invocation of the command line tool does: `main` around `patch`, and the few
ways in which it ends.
-/

namespace ElfCraft
namespace Ps3patch

open Binary Elf

namespace World

variable {File : Type}

theorem printf_printf (world : World File) (text text' : String)
    : (world.printf text).printf text' = world.printf (text ++ text') := by
  unfold printf
  rw [String.append_assoc]

theorem printf_empty (world : World File) : world.printf "" = world := by
  unfold printf
  rw [String.append_empty]

variable [DecidableEq File]

def put (world : World File) (file : File) (bytes : Bytes) : World File :=
  { world with files := fun file' => if file' = file then some bytes else world.files file' }

theorem files_put_self (world : World File) (file : File) (bytes : Bytes)
    : (world.put file bytes).files file = some bytes := by
  apply if_pos rfl

theorem files_put_of_ne (world : World File) {file file' : File} (bytes : Bytes) (h : file' ≠ file)
    : (world.put file bytes).files file' = world.files file' := by
  apply if_neg h

end World

section Patch

variable {File : Type} [DecidableEq File] (resolve : Arg → File)

theorem writeFile_of_opened {outcome : WriteOutcome} (h : outcome.opened = true) (world : World File)
    (path : Arg) (bytes : Bytes)
    : writeFile resolve outcome world path bytes
        =
      (world.put (resolve path) (arrived bytes outcome.kept), outcome.accepted) := by
  apply if_pos h

theorem writeFile_of_not_opened {outcome : WriteOutcome} (h : outcome.opened = false) (world : World File)
    (path : Arg) (bytes : Bytes)
    : writeFile resolve outcome world path bytes = (world, false) := by
  apply if_neg
  rw [h]
  decide

/--
The end of the patch mode, when `patch` has come to `result` and `printed` is on `stdout`.
-/
def finish (outcome : WriteOutcome) (outputPath sprxPath : Arg) (world : World File) (printed : String)
    (result : Except Stop Run)
    : World File × Ending :=
  match result with
  | .error (.exit message) => ((world.printf printed).eprintf message, .exit 1)
  | .error .terminate => (world.printf printed, .terminate)
  | .ok run =>
    let (world, written) := writeFile resolve outcome (world.printf printed) outputPath run.outBytes
    if written then
      let world := world.printf
        ("Wrote " ++ toString run.outBytes.size ++ " bytes to " ++ outputPath.text ++ "\n")
      (world.printf <|
        "Patched successfully. On boot, this EBOOT will load and start: " ++ sprxPath.text ++ "\n", .exit 0)
    else
      (world.eprintf ("error: could not write output file '" ++ outputPath.text ++ "'\n"), .exit 1)

variable {resolve}

/--
`main` computes what `patch` computes, and only its result decides about the file that is written.
-/
theorem mainPatch_eq_finish (outcome : WriteOutcome) (inputPath outputPath sprxPath : Arg)
    (world : World File) (bytes : Bytes) (hread : world.files (resolve inputPath) = some bytes)
    : ∃ printed,
        mainPatch resolve outcome inputPath outputPath sprxPath world
          =
        finish resolve outcome outputPath sprxPath world printed
          (patch inputPath.text bytes sprxPath) := by
  unfold mainPatch readFile patch
  rw [hread]
  dsimp only
  cases parseAny bytes with
  | error e => exact ⟨_, rfl⟩
  | ok file =>
    cases file with
    | le32 file => exact ⟨_, rfl⟩
    | be32 file => exact ⟨_, rfl⟩
    | le64 file => exact ⟨_, rfl⟩
    | be64 file =>
      dsimp only
      cases resolveEntryDescriptor file with
      | error e => exact ⟨_, rfl⟩
      | ok entry =>
        dsimp only
        rw [World.printf_printf]
        split_ifs
        . exact ⟨_, rfl⟩
        . rw [World.printf_printf]
          cases buildTrampoline file entry (pickTrampolineAddr file) sprxPath with
          | error failure => cases failure <;> exact ⟨_, rfl⟩
          | ok tramp =>
            dsimp only
            rw [World.printf_printf]
            cases file.addLoadSegment ((pickTrampolineAddr file).setWidth 64) tramp.blob (PF_R ||| PF_X)
                0x10000 with
            | none => exact ⟨_, rfl⟩
            | some loaded =>
              dsimp only
              cases loaded.vaddrToFileOffset (tramp.entryPatchAddr.setWidth 64) with
              | error e => exact ⟨_, rfl⟩
              | ok entryOffset =>
                dsimp only
                cases loaded.patchBytesAt entryOffset tramp.entryPatchBytes with
                | error e => exact ⟨_, rfl⟩
                | ok patched =>
                  dsimp only
                  cases patched.serialize with
                  | none => exact ⟨_, rfl⟩
                  | some outBytes => exact ⟨_, rfl⟩

end Patch

section Effect

/--
The messages of an invocation that returns 1.
-/
def Complaint (message : String) : Prop :=
  "error: ".toList <+: message.toList ∨ "usage: ".toList <+: message.toList

instance (message : String) : Decidable (Complaint message) :=
  inferInstanceAs (Decidable ("error: ".toList <+: message.toList ∨ "usage: ".toList <+: message.toList))

theorem Complaint.append {text : String} (h : Complaint text) (rest : String) : Complaint (text ++ rest) := by
  unfold Complaint at *
  rw [String.toList_append]
  cases h with
  | inl h => exact Or.inl (h.trans (List.prefix_append _ _))
  | inr h => exact Or.inr (h.trans (List.prefix_append _ _))

theorem Complaint.ne_empty {message : String} (h : Complaint message) : message ≠ "" := by
  intro hempty
  rw [hempty] at h
  revert h
  decide

theorem complaint_notPs3Message : Complaint notPs3Message := by
  unfold notPs3Message
  apply Complaint.append
  decide

theorem complaint_of_patch {inputPath : String} {bytes : Bytes} {sprxPath : List Byte} {message : String}
    (h : patch inputPath bytes sprxPath = .error (.exit message))
    : Complaint message := by
  have said {text rest : String} (htext : Complaint text) (hmessage : text ++ rest = message)
      : Complaint message := by
    rw [← hmessage]
    apply htext.append
  unfold patch at h
  split at h
  . rw [Except.error.injEq, Stop.exit.injEq, String.append_assoc] at h
    apply said (by decide) h
  . split at h
    . rw [Except.error.injEq, Stop.exit.injEq, String.append_assoc] at h
      apply said (by decide) h
    . split_ifs at h
      . rw [Except.error.injEq, Stop.exit.injEq, String.append_assoc, String.append_assoc,
          String.append_assoc] at h
        apply said (by decide) h
      . dsimp only at h
        split at h
        . cases h
        . rw [Except.error.injEq, Stop.exit.injEq, String.append_assoc] at h
          apply said (by decide) h
        . split at h
          . cases h
          . split at h
            . rw [Except.error.injEq, Stop.exit.injEq, String.append_assoc] at h
              apply said (by decide) h
            . split at h
              . rw [Except.error.injEq, Stop.exit.injEq, String.append_assoc] at h
                apply said (by decide) h
              . split at h
                . cases h
                . cases h
  . rw [Except.error.injEq, Stop.exit.injEq] at h
    apply said (by decide) h

variable {File : Type} [DecidableEq File]

/--
An invocation of the tool, with what the environment does to its write.
-/
structure Invocation where
  outcome : WriteOutcome
  argv0 : Arg
  args : List Arg

def Invocation.invoke (resolve : Arg → File) (inv : Invocation) (world : World File) : World File × Ending :=
  main resolve inv.outcome inv.argv0 inv.args world

/--
The invocation patches what it reads to `run`, which is what it writes to `outputPath`.
-/
def Invocation.Patches (resolve : Arg → File) (inv : Invocation) (world : World File) (outputPath : Arg)
    (run : Run) : Prop :=
  ∃ inputPath sprxPath bytes, inv.args = [inputPath, outputPath, sprxPath]
    ∧ world.files (resolve inputPath) = some bytes ∧ patch inputPath.text bytes sprxPath = .ok run

/--
All that an invocation can do.
-/
inductive Effect (resolve : Arg → File) (world : World File) (inv : Invocation) : World File × Ending → Prop
  | refused (printed message : String) (hmessage : Complaint message)
    : Effect resolve world inv ((world.printf printed).eprintf message, .exit 1)
  | described (flag inputPath : Arg) (bytes : Bytes) (file : Ps3ElfFile) (report : String)
    (hargs : inv.args = [flag, inputPath]) (hflag : flag.text = "--info")
    (hread : world.files (resolve inputPath) = some bytes) (hparse : parseAny bytes = .ok (.be64 file))
    (hreport : formatInfo file = .ok report)
    : Effect resolve world inv (world.printf report, .exit 0)
  | wrote (outputPath : Arg) (run : Run) (printed : String)
    (hpatches : inv.Patches resolve world outputPath run)
    (hopened : inv.outcome.opened = true) (haccepted : inv.outcome.accepted = true)
    : Effect resolve world inv
        ((world.put (resolve outputPath) (arrived run.outBytes inv.outcome.kept)).printf printed, .exit 0)
  | broke (outputPath : Arg) (run : Run) (printed message : String)
    (hpatches : inv.Patches resolve world outputPath run)
    (hopened : inv.outcome.opened = true) (haccepted : inv.outcome.accepted = false)
    (hmessage : Complaint message)
    : Effect resolve world inv
        (((world.put (resolve outputPath) (arrived run.outBytes inv.outcome.kept)).printf printed).eprintf
          message, .exit 1)
  | terminated (printed : String) : Effect resolve world inv (world.printf printed, .terminate)

variable {resolve : Arg → File}

theorem effect_complaint {world : World File} {inv : Invocation} {message : String}
    (hmessage : Complaint message)
    : Effect resolve world inv (world.eprintf message, .exit 1) := by
  have h : Effect resolve world inv ((world.printf "").eprintf message, .exit 1) := .refused "" message hmessage
  rw [World.printf_empty] at h
  apply h

theorem effect_printUsage (world : World File) (inv : Invocation) (argv0 : Arg)
    : Effect resolve world inv (printUsage world argv0, .exit 1) := by
  apply effect_complaint
  simp only [String.append_assoc]
  apply Complaint.append
  decide

theorem effect_mainInfo (world : World File) (inv : Invocation) (flag inputPath : Arg)
    (hargs : inv.args = [flag, inputPath]) (hflag : flag.text = "--info")
    : Effect resolve world inv (mainInfo resolve inputPath world) := by
  unfold mainInfo readFile
  cases hread : world.files (resolve inputPath) with
  | none =>
    apply effect_complaint
    rw [String.append_assoc]
    apply Complaint.append
    decide
  | some bytes =>
    dsimp only
    cases hparse : parseAny bytes with
    | error e =>
      apply effect_complaint
      rw [String.append_assoc]
      apply Complaint.append
      decide
    | ok any =>
      cases any with
      | le32 file => apply effect_complaint complaint_notPs3Message
      | be32 file => apply effect_complaint complaint_notPs3Message
      | le64 file => apply effect_complaint complaint_notPs3Message
      | be64 file =>
        dsimp only
        cases hreport : formatInfo file with
        | error e =>
          apply effect_complaint
          rw [String.append_assoc]
          apply Complaint.append
          decide
        | ok report => apply Effect.described flag inputPath bytes file report hargs hflag hread hparse hreport

theorem effect_mainPatch (world : World File) (inv : Invocation) (inputPath outputPath sprxPath : Arg)
    (hargs : inv.args = [inputPath, outputPath, sprxPath])
    : Effect resolve world inv (mainPatch resolve inv.outcome inputPath outputPath sprxPath world) := by
  cases hread : world.files (resolve inputPath) with
  | none =>
    unfold mainPatch readFile
    rw [hread]
    apply effect_complaint
    rw [String.append_assoc]
    apply Complaint.append
    decide
  | some bytes =>
    have ⟨printed, h⟩ := mainPatch_eq_finish inv.outcome inputPath outputPath sprxPath world bytes hread
    rw [h]
    cases hpatch : patch inputPath.text bytes sprxPath with
    | error stop =>
      cases stop with
      | exit message => apply Effect.refused printed message (complaint_of_patch hpatch)
      | terminate => apply Effect.terminated
    | ok run =>
      have hpatches : inv.Patches resolve world outputPath run := by
        exact ⟨inputPath, sprxPath, bytes, hargs, hread, hpatch⟩
      have hmessage : Complaint ("error: could not write output file '" ++ outputPath.text ++ "'\n") := by
        rw [String.append_assoc]
        apply Complaint.append
        decide
      unfold finish
      dsimp only
      cases hopened : inv.outcome.opened with
      | false =>
        rw [writeFile_of_not_opened resolve hopened]
        apply Effect.refused printed _ hmessage
      | true =>
        rw [writeFile_of_opened resolve hopened]
        cases haccepted : inv.outcome.accepted with
        | false => apply Effect.broke outputPath run printed _ hpatches hopened haccepted hmessage
        | true =>
          have h := Effect.wrote outputPath run (printed ++ ("Wrote " ++ toString run.outBytes.size ++
            " bytes to " ++ outputPath.text ++ "\n" ++ ("Patched successfully. On boot, this EBOOT will " ++
            "load and start: " ++ sprxPath.text ++ "\n"))) hpatches hopened haccepted
          rw [← World.printf_printf, ← World.printf_printf] at h
          apply h

theorem effect_invoke (resolve : Arg → File) (world : World File) (inv : Invocation)
    : Effect resolve world inv (inv.invoke resolve world) := by
  unfold Invocation.invoke main
  split
  . next flag inputPath hargs =>
    split_ifs with hflag
    . apply effect_mainInfo world inv flag inputPath hargs hflag
    . apply effect_printUsage
  . next inputPath outputPath sprxPath hargs => apply effect_mainPatch world inv _ _ _ hargs
  . apply effect_printUsage

/--
What an invocation reports is what happened: it returns 0 exactly when nothing is on `stderr`, it returns
1 behind one complaint, and the one file it may change is its output, which then has a front part of what
`patch` makes of the input.
-/
structure Accounted (resolve : Arg → File) (world : World File) (inv : Invocation)
    (result : World File × Ending) : Prop where
  success : result.2 = .exit 0 ↔ result.2 ≠ .terminate ∧ result.1.stderr = world.stderr
  failure : ∀ code, result.2 = .exit code → code ≠ 0 →
    code = 1 ∧ ∃ message, Complaint message ∧ result.1.stderr = world.stderr ++ message
  terminated : result.2 = .terminate → result.1.stderr = world.stderr ∧ result.1.files = world.files
  changed : ∀ file, result.1.files file ≠ world.files file →
    ∃ outputPath run, inv.Patches resolve world outputPath run ∧ file = resolve outputPath
      ∧ result.1.files file = some (arrived run.outBytes inv.outcome.kept)

theorem append_complaint_ne {message : String} (h : Complaint message) (stderr : String)
    : stderr ++ message ≠ stderr := by
  intro heq
  apply h.ne_empty
  rw [← String.append_right_inj stderr, heq, String.append_empty]

theorem exit_one_ne_zero : Ending.exit 1 ≠ Ending.exit 0 := by
  decide

omit [DecidableEq File] in
/--
An invocation that returns 1, whatever it has done to the files.
-/
theorem accounted_of_complaint {world world' : World File} {inv : Invocation} {message : String}
    (hmessage : Complaint message) (hstderr : world'.stderr = world.stderr ++ message)
    (hchanged : ∀ file, world'.files file ≠ world.files file →
      ∃ outputPath run, inv.Patches resolve world outputPath run ∧ file = resolve outputPath
        ∧ world'.files file = some (arrived run.outBytes inv.outcome.kept))
    : Accounted resolve world inv (world', .exit 1) := by
  constructor
  . constructor
    . intro h
      exact absurd h exit_one_ne_zero
    . intro h
      rw [hstderr] at h
      exact absurd h.right (append_complaint_ne hmessage world.stderr)
  . intro code hcode hne
    cases hcode
    exact ⟨rfl, message, hmessage, hstderr⟩
  . intro h
    cases h
  . exact hchanged

omit [DecidableEq File] in
theorem accounted_of_success {world world' : World File} {inv : Invocation}
    (hstderr : world'.stderr = world.stderr)
    (hchanged : ∀ file, world'.files file ≠ world.files file →
      ∃ outputPath run, inv.Patches resolve world outputPath run ∧ file = resolve outputPath
        ∧ world'.files file = some (arrived run.outBytes inv.outcome.kept))
    : Accounted resolve world inv (world', .exit 0) := by
  constructor
  . constructor
    . intro _
      exact ⟨nofun, hstderr⟩
    . intro _
      rfl
  . intro code hcode hne
    cases hcode
    exact absurd rfl hne
  . intro h
    cases h
  . exact hchanged

theorem changed_put {world : World File} {inv : Invocation} {outputPath : Arg} {run : Run}
    (hpatches : inv.Patches resolve world outputPath run) (file : File)
    (h : (world.put (resolve outputPath) (arrived run.outBytes inv.outcome.kept)).files file
      ≠ world.files file)
    : ∃ outputPath' run', inv.Patches resolve world outputPath' run' ∧ file = resolve outputPath'
        ∧ (world.put (resolve outputPath) (arrived run.outBytes inv.outcome.kept)).files file
            = some (arrived run'.outBytes inv.outcome.kept) := by
  by_cases hfile : file = resolve outputPath
  . refine ⟨outputPath, run, hpatches, hfile, ?_⟩
    rw [hfile]
    apply World.files_put_self
  . exact absurd (World.files_put_of_ne world _ hfile) h

theorem accounted_of_effect {world : World File} {inv : Invocation} {result : World File × Ending}
    (h : Effect resolve world inv result)
    : Accounted resolve world inv result := by
  cases h with
  | refused printed message hmessage =>
    apply accounted_of_complaint hmessage
    . rfl
    . intro file h
      exact absurd rfl h
  | described flag inputPath bytes file report hargs hflag hread hparse hreport =>
    apply accounted_of_success
    . rfl
    . intro file h
      exact absurd rfl h
  | wrote outputPath run printed hpatches hopened haccepted =>
    apply accounted_of_success
    . rfl
    . apply changed_put hpatches
  | broke outputPath run printed message hpatches hopened haccepted hmessage =>
    apply accounted_of_complaint hmessage
    . rfl
    . apply changed_put hpatches
  | terminated printed =>
    constructor
    . constructor
      . intro h
        cases h
      . intro h
        exact absurd rfl h.left
    . intro code hcode
      cases hcode
    . intro _
      exact ⟨rfl, rfl⟩
    . intro file h
      exact absurd rfl h

theorem invoke_accounted (resolve : Arg → File) (world : World File) (inv : Invocation)
    : Accounted resolve world inv (inv.invoke resolve world) := by
  apply accounted_of_effect
  apply effect_invoke

end Effect

end Ps3patch
end ElfCraft
