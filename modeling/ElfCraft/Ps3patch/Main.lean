import ElfCraft.Ps3patch.Trampoline

/-!
This module contains the patch mode of the command line tool, from the bytes of the input to the bytes
of the output.
-/

namespace ElfCraft
namespace Ps3patch

open Binary Elf

def alignUp (value align : BitVec 64) : BitVec 64 :=
  if align = 0 then value else ((value + align - 1) / align) * align

def highestEnd (segments : List (Phdr true .Big)) : BitVec 64 :=
  go 0 segments
where
  go (highestEnd : BitVec 64) (segments : List (Phdr true .Big)) : BitVec 64 :=
    match segments with
    | [] => highestEnd
    | ph :: segments =>
      if ph.p_type ≠ PT_LOAD then
        go highestEnd segments
      else
        let segmentEnd := ph.p_vaddr + ph.p_memsz
        go (if segmentEnd > highestEnd then segmentEnd else highestEnd) segments

def pickTrampolineAddr (file : Ps3ElfFile) : BitVec 32 :=
  (alignUp (highestEnd file.segments) 0x10000).setWidth 32

/--
How a run ends without an output: `main` returns 1 behind a message on `stderr`, or an exception that
nobody catches terminates it.
-/
inductive Stop where
  | exit (message : String)
  | terminate
  deriving DecidableEq

/--
What a successful run has computed. `tramp` is the result of `buildTrampoline` at `trampolineAddr`,
`patched` the file that is serialized to `outBytes`.
-/
structure Run where
  file : Ps3ElfFile
  entry : EntryDescriptor
  trampolineAddr : BitVec 32
  tramp : TrampolineResult
  entryOffset : BitVec 64
  patched : Ps3ElfFile
  outBytes : Bytes

def patch (inputPath : String) (bytes : Bytes) (sprxPath : List Byte) : Except Stop Run :=
  match parseAny bytes with
  | .error e => .error (.exit ("error: failed to parse ELF: " ++ e.message ++ "\n"))
  | .ok (.be64 file) =>
    match resolveEntryDescriptor file with
    | .error e =>
      .error (.exit ("error: could not resolve the entry function descriptor: " ++ e.message ++ "\n"))
    | .ok entry =>
      if isAlreadyPatched file then
        .error <| .exit <|
          "error: '" ++ inputPath ++ "' has already been patched by ps3patch. Refusing to patch it " ++
            "again -- use the original, unmodified EBOOT.elf. (Run with --info to inspect this file " ++
            "first.)\n"
      else
        let trampolineAddr := pickTrampolineAddr file
        match buildTrampoline file entry trampolineAddr sprxPath with
        | .error (.exception _) => .error .terminate
        | .error (.error e) =>
          .error (.exit ("error: failed to build trampoline: " ++ e.message ++ "\n"))
        | .ok tramp =>
          match file.addLoadSegment (trampolineAddr.setWidth 64) tramp.blob (PF_R ||| PF_X) 0x10000 with
          | none => .error .terminate
          | some loaded =>
            match loaded.vaddrToFileOffset (tramp.entryPatchAddr.setWidth 64) with
            | .error e =>
              .error (.exit ("error: could not locate the entrypoint to patch: " ++ e.message ++ "\n"))
            | .ok entryOffset =>
              match loaded.patchBytesAt entryOffset tramp.entryPatchBytes with
              | .error e =>
                .error (.exit ("error: failed to patch the entrypoint: " ++ e.message ++ "\n"))
              | .ok patched =>
                match patched.serialize with
                | none => .error .terminate
                | some outBytes =>
                  .ok { file, entry, trampolineAddr, tramp, entryOffset, patched, outBytes }
  | .ok _ =>
    .error <| .exit <|
      "error: input is not a 64-bit big-endian ELF (PS3 executables always are) -- " ++
        "this doesn't look like a PS3 EBOOT.elf\n"

end Ps3patch
end ElfCraft
