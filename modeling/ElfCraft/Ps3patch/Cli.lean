import ElfCraft.Ps3patch.Info
import ElfCraft.Ps3patch.Main

/-!
This module contains `main`: how the command line tool takes its arguments, what it reads and writes,
what it prints and how it ends.
-/

namespace ElfCraft
namespace Ps3patch

open Binary Elf

-- An argument is a string of bytes, a text shows each of them as one character.
abbrev Arg := List Byte

def Arg.text (arg : Arg) : String := String.ofList (arg.map fun b => Char.ofNat b.toNat)

/--
What an invocation of the tool sees and changes. `files` has the contents of the files that can be opened
for reading, a path names the file that `resolve` makes of it.
-/
structure World (File : Type) where
  files : File → Option Bytes
  stdout : String
  stderr : String

/--
How it goes to write a file, which only the environment decides: whether the stream can be opened, whether
`write` reports success, and how many bytes have arrived when the stream is closed.
-/
structure WriteOutcome where
  opened : Bool
  accepted : Bool
  kept : Nat

inductive Ending where
  | exit (code : Nat)
  | terminate
  deriving DecidableEq

namespace World

variable {File : Type}

def printf (world : World File) (text : String) : World File :=
  { world with stdout := world.stdout ++ text }

def eprintf (world : World File) (text : String) : World File :=
  { world with stderr := world.stderr ++ text }

end World

def arrived (bytes : Bytes) (kept : Nat) : Bytes where
  toList := bytes.toList.take kept
  size_le := Nat.le_trans (List.length_take_le' _ _) bytes.size_le

section Main

variable {File : Type} [DecidableEq File] (resolve : Arg → File)

def readFile (world : World File) (path : Arg) : Option Bytes := world.files (resolve path)

/--
Opening the stream empties the file. The stream is closed by its destructor, what is lost then is not
reported.
-/
def writeFile (outcome : WriteOutcome) (world : World File) (path : Arg) (bytes : Bytes)
    : World File × Bool :=
  if outcome.opened then
    ({ world with
        files := fun file =>
          if file = resolve path then some (arrived bytes outcome.kept) else world.files file },
      outcome.accepted)
  else
    (world, false)

def printUsage (world : World File) (argv0 : Arg) : World File :=
  world.eprintf <|
    "usage: " ++ argv0.text ++ " <input EBOOT.elf> <output EBOOT.elf> <sprx path>\n" ++
      "       " ++ argv0.text ++ " --info <EBOOT.elf>\n" ++
      "example: " ++ argv0.text ++ " EBOOT.elf EBOOT.patched.elf /dev_hdd0/tmp/debug.sprx\n" ++
      "         " ++ argv0.text ++ " --info EBOOT.elf\n"

def notPs3Message : String :=
  "error: input is not a 64-bit big-endian ELF (PS3 executables always are) -- " ++
    "this doesn't look like a PS3 EBOOT.elf\n"

/--
`ps3patch --info <EBOOT.elf>`
-/
def mainInfo (inputPath : Arg) (world : World File) : World File × Ending :=
  match readFile resolve world inputPath with
  | none =>
    (world.eprintf ("error: could not open '" ++ inputPath.text ++ "' for reading\n"), .exit 1)
  | some bytes =>
    match parseAny bytes with
    | .error e => (world.eprintf ("error: failed to parse ELF: " ++ e.message ++ "\n"), .exit 1)
    | .ok (.be64 file) =>
      match formatInfo file with
      | .error e =>
        (world.eprintf ("error: could not build info report: " ++ e.message ++ "\n"), .exit 1)
      | .ok report => (world.printf report, .exit 0)
    | .ok _ => (world.eprintf notPs3Message, .exit 1)

/--
`ps3patch <input EBOOT.elf> <output EBOOT.elf> <sprx path>`
-/
def mainPatch (outcome : WriteOutcome) (inputPath outputPath sprxPath : Arg) (world : World File)
    : World File × Ending :=
  match readFile resolve world inputPath with
  | none =>
    (world.eprintf ("error: could not open '" ++ inputPath.text ++ "' for reading\n"), .exit 1)
  | some bytes =>
    let world := world.printf ("Read " ++ toString bytes.size ++ " bytes from " ++ inputPath.text ++ "\n")
    match parseAny bytes with
    | .error e => (world.eprintf ("error: failed to parse ELF: " ++ e.message ++ "\n"), .exit 1)
    | .ok (.be64 file) =>
      match resolveEntryDescriptor file with
      | .error e =>
        (world.eprintf
          ("error: could not resolve the entry function descriptor: " ++ e.message ++ "\n"), .exit 1)
      | .ok entry =>
        let world := world.printf <|
          "Resolved entrypoint: codeAddress=0x" ++ hexDigits entry.codeAddress.toNat ++ " tocValue=0x" ++
            hexDigits entry.tocValue.toNat ++ "\n"
        if isAlreadyPatched file then
          (world.eprintf <|
            "error: '" ++ inputPath.text ++ "' has already been patched by ps3patch. Refusing to patch it " ++
              "again -- use the original, unmodified EBOOT.elf. (Run with --info to inspect this file " ++
              "first.)\n", .exit 1)
        else
          let trampolineAddr := pickTrampolineAddr file
          let world := world.printf
            ("Placing trampoline segment at vaddr=0x" ++ hexDigits trampolineAddr.toNat ++ "\n")
          match buildTrampoline file entry trampolineAddr sprxPath with
          | .error (.exception _) => (world, .terminate)
          | .error (.error e) =>
            (world.eprintf ("error: failed to build trampoline: " ++ e.message ++ "\n"), .exit 1)
          | .ok tramp =>
            let world := world.printf <|
              "Trampoline blob: " ++ toString tramp.blob.length ++ " bytes, displaced " ++
                toString tramp.displacedInstructionCount ++ " instruction(s) at the entrypoint\n"
            match file.addLoadSegment (trampolineAddr.setWidth 64) tramp.blob (PF_R ||| PF_X) 0x10000 with
            | none => (world, .terminate)
            | some loaded =>
              match loaded.vaddrToFileOffset (tramp.entryPatchAddr.setWidth 64) with
              | .error e =>
                (world.eprintf
                  ("error: could not locate the entrypoint to patch: " ++ e.message ++ "\n"), .exit 1)
              | .ok entryOffset =>
                match loaded.patchBytesAt entryOffset tramp.entryPatchBytes with
                | .error e =>
                  (world.eprintf ("error: failed to patch the entrypoint: " ++ e.message ++ "\n"), .exit 1)
                | .ok patched =>
                  match patched.serialize with
                  | none => (world, .terminate)
                  | some outBytes =>
                    let (world, written) := writeFile resolve outcome world outputPath outBytes
                    if written then
                      let world := world.printf
                        ("Wrote " ++ toString outBytes.size ++ " bytes to " ++ outputPath.text ++ "\n")
                      (world.printf <|
                        "Patched successfully. On boot, this EBOOT will load and start: " ++ sprxPath.text ++
                          "\n", .exit 0)
                    else
                      (world.eprintf
                        ("error: could not write output file '" ++ outputPath.text ++ "'\n"), .exit 1)
    | .ok _ => (world.eprintf notPs3Message, .exit 1)

-- `argv0` is the name of the program, `args` is what follows it.
def main (outcome : WriteOutcome) (argv0 : Arg) (args : List Arg) (world : World File)
    : World File × Ending :=
  match args with
  | [flag, inputPath] =>
    if flag.text = "--info" then
      mainInfo resolve inputPath world
    else
      (printUsage world argv0, .exit 1)
  | [inputPath, outputPath, sprxPath] => mainPatch resolve outcome inputPath outputPath sprxPath world
  | _ => (printUsage world argv0, .exit 1)

end Main

end Ps3patch
end ElfCraft
