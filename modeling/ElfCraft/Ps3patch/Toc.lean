import ElfCraft.Elf.File

/-!
This module contains the resolution of the entry point: `e_entry` is the address of a descriptor of two
32 bit words, the address of the code and the TOC pointer.
-/

namespace ElfCraft
namespace Ps3patch

open Binary Elf

structure EntryDescriptor where
  codeAddress : BitVec 64
  tocValue : BitVec 64
  envPointer : BitVec 64
  deriving DecidableEq, Repr

namespace detail

def readBigEndian32 (bytes : List Byte) (offset : Nat) : BitVec 32 :=
  (List.range 4).foldl (fun v i => (v <<< 8) ||| (bytes.getD (offset + i) 0).setWidth 32) 0

end detail

open detail

abbrev Ps3ElfFile := ElfFile true .Big

def validatePs3Executable (file : Ps3ElfFile) : Result Unit :=
  if file.header.e_machine ≠ EM_PPC64 then
    .error (.make .Unsupported
      "e_machine is not EM_PPC64 -- this does not look like a PS3/PPU executable")
  else
    .ok ()

def hasTypicalEFlags (file : Ps3ElfFile) : Bool := file.header.e_flags == 0

def resolveEntryDescriptor (file : Ps3ElfFile) : Result EntryDescriptor :=
  match validatePs3Executable file with
  | .error e => .error e
  | .ok () =>
    let descriptorVaddr := file.entry
    match file.vaddrToFileOffset descriptorVaddr with
    | .error e =>
      .error <| .make .OffsetOutOfBounds <|
        "e_entry (0x" ++ toString descriptorVaddr.toNat ++
          ") does not resolve to any file-backed segment -- cannot locate the " ++
          "entry function descriptor: " ++ e.message
    | .ok descriptorOffset =>
      match file.readAt descriptorOffset 8 with
      | .error e =>
        .error <| .make .TruncatedFile <|
          "entry function descriptor at file offset 0x" ++ toString descriptorOffset.toNat ++
            " is truncated: " ++ e.message
      | .ok bytes =>
        .ok
          { codeAddress := (readBigEndian32 bytes 0).setWidth 64
            tocValue := (readBigEndian32 bytes 4).setWidth 64
            envPointer := 0 }

end Ps3patch
end ElfCraft
