import ElfCraft.Binary.Field
import ElfCraft.Ppc.Isa

/-!
This module contains the proof that the ISA reads the words of the encoders as the instructions they
are named after.
-/

namespace ElfCraft
namespace Ppc

open Binary detail

attribute [local simp] BitVec.extractLsb'_or

@[simp]
theorem detail.bits_eq_lowBits (value : BitVec 32) (width : Nat)
    : bits value width = lowBits value width := by
  unfold bits lowBits
  split
  . next h =>
    rw [BitVec.shiftLeft_eq_zero h]
    rfl
  . rfl

theorem decode_encodeLis (rd : BitVec 5) (simm : BitVec 16)
    : decode (encodeLis (rd.setWidth 32) simm) = some (.addis rd 0 simm) := by
  simp [decode, encodeLis, encodeAddis]

theorem decode_encodeOri (ra rs : BitVec 5) (uimm : BitVec 16)
    : decode (encodeOri (ra.setWidth 32) (rs.setWidth 32) uimm) = some (.ori ra rs uimm) := by
  simp [decode, encodeOri]

/--
What the ISA reads out of the six bits that `mb` leaves in the word: they stand there as they are, the
ISA takes the lowest one for `mb5`.
-/
def storedMb (mb : BitVec 6) : BitVec 6 := mb.extractLsb' 0 1 ++ mb.extractLsb' 1 5

theorem decode_encodeRldicl (ra rs : BitVec 5) (sh mb : BitVec 6)
    : decode (encodeRldicl (ra.setWidth 32) (rs.setWidth 32) (sh.setWidth 32) (mb.setWidth 32) false)
        =
      some (.rldicl ra rs sh (storedMb mb)) := by
  have hlo : sh.setWidth 32 &&& 0x1F#32 = lowBits (sh.setWidth 32) 5 := rfl
  have hhi : (sh.setWidth 32 >>> 5) &&& 0x1#32 = lowBits (sh.setWidth 32 >>> 5) 1 := rfl
  have hsh : (sh.setWidth 32).extractLsb' 5 1 ++ (sh.setWidth 32).extractLsb' 0 5 = sh := by
    rw [BitVec.extractLsb'_append_extractLsb'_eq_extractLsb' (by rfl)]
    apply extractLsb'_setWidth_self
    decide
  have hmb (start len : Nat) (h : start + len ≤ 6)
      : (mb.setWidth 32).extractLsb' start len = mb.extractLsb' start len := by
    apply extractLsb'_setWidth_of_le
    . decide
    . exact h
  unfold encodeRldicl
  dsimp only
  rw [hlo, hhi]
  simp [decode, storedMb, hsh, hmb]

-- The mask start 32 is read back as 16.
theorem decode_encodeClrldi_32 (ra rs : BitVec 5)
    : decode (encodeClrldi (ra.setWidth 32) (rs.setWidth 32) 32) = some (.rldicl ra rs 0 16) := by
  apply decode_encodeRldicl ra rs 0 32

theorem decode_encodeMtctr (rs : BitVec 5)
    : decode (encodeMtctr (rs.setWidth 32)) = some (.mtspr rs .ctr) := by
  simp [decode, decodeSpr, encodeMtctr, encodeMtspr, encodeSprField, SPR_CTR]

theorem decode_encodeBctr : decode encodeBctr = some (.bcctr 20 0 false) := by
  decide

end Ppc
end ElfCraft
