/-!
This module contains the typed errors of the library.
-/

namespace ElfCraft
namespace Elf

inductive ErrorCode where
  | TruncatedFile
  | BadMagic
  | UnsupportedClass
  | UnsupportedDataEncoding
  | InconsistentHeaderSize
  | OffsetOutOfBounds
  | IndexOutOfBounds
  | IoError
  | AlreadyPatched
  | Unsupported
  | InvalidArgument
  | RelocationFailed
  deriving DecidableEq, Repr

structure Error where
  code : ErrorCode
  message : String
  deriving DecidableEq, Repr

def Error.make (code : ErrorCode) (message : String) : Error := { code, message }

abbrev Result (α : Type) := Except Error α

-- The digits that `printf` writes for `%zx` and `%llx`.
def hexDigits (n : Nat) : String := String.ofList (Nat.toDigits 16 n)

end Elf
end ElfCraft
