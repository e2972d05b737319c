import ElfCraft.Ps3patch.Trampoline
import ElfCraft.Text.Format

/-!
This module contains the inspection report that the command line tool prints for `--info`.
-/

namespace ElfCraft
namespace Ps3patch

open Elf Text

namespace detail

def segmentFlagsToString (flags : BitVec 32) : String :=
  (if flags &&& PF_R ≠ 0 then "R" else "-") ++ (if flags &&& PF_W ≠ 0 then "W" else "-") ++
    (if flags &&& PF_X ≠ 0 then "X" else "-")

def segmentTypeToString (type : BitVec 32) : String :=
  if type = PT_NULL then "NULL"
  else if type = PT_LOAD then "LOAD"
  else if type = PT_DYNAMIC then "DYNAMIC"
  else if type = PT_INTERP then "INTERP"
  else if type = PT_NOTE then "NOTE"
  else buffered 16 ("0x" ++ hexDigits type.toNat)

def hex (v : BitVec 64) : String := buffered 24 ("0x" ++ hexDigits v.toNat)

end detail

open detail

/--
The line of the program header at position `idx`.
-/
def segmentLine (idx : Nat) (ph : Phdr true .Big) : String :=
  buffered 256 <|
    "  " ++ leftAligned 3 (toString idx) ++ " " ++ leftAligned 9 (segmentTypeToString ph.p_type) ++ " " ++
      leftAligned 6 (segmentFlagsToString ph.p_flags) ++ " " ++ leftAligned 18 (hex ph.p_vaddr) ++ " " ++
      leftAligned 18 (hex ph.p_offset) ++ " " ++ leftAligned 11 (hex ph.p_filesz) ++ " " ++
      hex ph.p_memsz ++ "\n"

def segmentLines (segments : List (Phdr true .Big)) : String :=
  go 0 segments
where
  go (idx : Nat) (segments : List (Phdr true .Big)) : String :=
    match segments with
    | [] => ""
    | ph :: segments => segmentLine idx ph ++ go (idx + 1) segments

def formatInfo (file : Ps3ElfFile) : Result String :=
  match resolveEntryDescriptor file with
  | .error e => .error e
  | .ok entry =>
    let patched := isAlreadyPatched file
    .ok <|
      "=== ELF Header ===\n" ++
      "  Class:        ELF64\n" ++
      "  Data:         big-endian\n" ++
      ("  Machine:      EM_PPC64 (" ++ toString file.header.e_machine.toNat ++ ")\n") ++
      ("  Type:         " ++ toString file.header.e_type.toNat ++ "\n") ++
      ("  Flags:        " ++ hex (file.header.e_flags.setWidth 64) ++ "\n") ++
      (if hasTypicalEFlags file then "" else
        "                (unusual -- real PS3 EBOOTs observed so far all have e_flags == 0x0; " ++
          "this doesn't necessarily mean the file is invalid, just that it differs from what " ++
          "this tool has empirically seen)\n") ++
      ("  Entry (raw):  " ++ hex file.entry ++ "  (OPD descriptor address, not code)\n") ++
      "\n" ++
      "=== Entry Function Descriptor (OPD) ===\n" ++
      ("  Code address: " ++ hex entry.codeAddress ++ "\n") ++
      ("  TOC value:    " ++ hex entry.tocValue ++ "\n") ++
      ("  Env pointer:  " ++ hex entry.envPointer ++ "\n") ++
      "\n" ++
      "=== ps3patch status ===\n" ++
      ("  Already patched by ps3patch: " ++ (if patched then "YES" else "no") ++ "\n") ++
      "\n" ++
      ("=== Program Headers (" ++ toString file.segments.length ++ ") ===\n") ++
      "  #   Type      Flags  VirtAddr            Offset              FileSz      MemSz\n" ++
      segmentLines file.segments ++
      "\n" ++
      "=== Syscalls ps3patch's trampoline uses ===\n" ++
      ("  " ++ toString SYS_PRX_LOAD_MODULE.toNat ++ "  sys_prx_load_module\n") ++
      ("  " ++ toString SYS_PRX_START_MODULE.toNat ++ "  sys_prx_start_module\n") ++
      "  (syscall number passed in r11, per LV2 convention, confirmed on real hardware)\n"

end Ps3patch
end ElfCraft
