import ElfCraft.Binary.Codec

/-!
This module contains byte buffers that have a largest size. Operations that would have to grow a
buffer beyond it have no result, and neither have writes outside of the buffer.
-/

namespace ElfCraft
namespace Binary

def maxSize : Nat := 2 ^ 63 - 1

structure Bytes where
  toList : List Byte
  size_le : toList.length ≤ maxSize
  deriving DecidableEq

namespace Bytes

def size (b : Bytes) : Nat := b.toList.length

def append (b : Bytes) (data : List Byte) : Option Bytes :=
  if h : (b.toList ++ data).length ≤ maxSize then
    some ⟨b.toList ++ data, h⟩
  else
    none

/--
Grow to `n` bytes, the new ones are zero.
-/
def resize (b : Bytes) (n : Nat) : Option Bytes :=
  b.append (List.replicate (n - b.size) 0)

def write (b : Bytes) (pos : Nat) (data : List Byte) : Option Bytes :=
  if h : pos + data.length ≤ b.size then
    some ⟨splice b.toList pos data, by rw [length_splice _ _ _ h]; exact b.size_le⟩
  else
    none

@[ext]
theorem ext {b c : Bytes} (h : b.toList = c.toList) : b = c := by
  cases b
  cases c
  congr

theorem size_lt (b : Bytes) : b.size < 2 ^ 63 := by
  have := b.size_le
  unfold size
  unfold maxSize at this
  omega

theorem append_eq_some_iff (b c : Bytes) (data : List Byte)
    : b.append data = some c ↔ c.toList = b.toList ++ data := by
  unfold append
  constructor
  . intro h
    split at h
    . rw [← Option.some.inj h]
    . contradiction
  . intro h
    have hle : (b.toList ++ data).length ≤ maxSize := by
      rw [← h]
      exact c.size_le
    simp only [hle, ↓reduceDIte, Option.some.injEq]
    exact Bytes.ext h.symm

theorem exists_write (b : Bytes) (pos : Nat) (data : List Byte) (h : pos + data.length ≤ b.size)
    : ∃ c, b.write pos data = some c := by
  unfold write
  rw [dif_pos h]
  exact ⟨_, rfl⟩

theorem write_eq_some_iff (b c : Bytes) (pos : Nat) (data : List Byte)
    : b.write pos data = some c
        ↔
      pos + data.length ≤ b.size ∧ c.toList = splice b.toList pos data := by
  unfold write
  constructor
  . intro h
    split at h
    . next hle =>
      rw [← Option.some.inj h]
      exact ⟨hle, rfl⟩
    . contradiction
  . rintro ⟨hle, h⟩
    simp only [hle, ↓reduceDIte, Option.some.injEq]
    exact Bytes.ext h.symm

end Bytes

end Binary
end ElfCraft
