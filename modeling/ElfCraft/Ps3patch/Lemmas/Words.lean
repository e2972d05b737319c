import ElfCraft.Ps3patch.Trampoline

/-!
This module contains the proof that instruction words survive their way to and from big endian bytes.
-/

namespace ElfCraft
namespace Ps3patch

open Binary Ppc detail

attribute [local simp] BitVec.extractLsb'_or BitVec.extractLsb'_setWidth_of_le

-- The word of four bytes, as `buildTrampoline` puts it together.
def joinWord (b0 b1 b2 b3 : Byte) : Instruction :=
  (b0.setWidth 32 <<< 24) ||| (b1.setWidth 32 <<< 16) ||| (b2.setWidth 32 <<< 8) ||| b3.setWidth 32

theorem setWidth_8_ushiftRight (w : Instruction) (k : Nat)
    : (w >>> k).setWidth 8 = w.extractLsb' k 8 := by
  apply BitVec.eq_of_getLsbD_eq
  intro i hi
  rw [BitVec.getLsbD_setWidth, BitVec.getLsbD_ushiftRight, BitVec.getLsbD_extractLsb']

theorem setWidth_8 (w : Instruction) : w.setWidth 8 = w.extractLsb' 0 8 := by
  have h := setWidth_8_ushiftRight w 0
  rw [BitVec.ushiftRight_zero] at h
  exact h

theorem extract_joinWord (b0 b1 b2 b3 : Byte)
    : (joinWord b0 b1 b2 b3).extractLsb' 24 8 = b0
        ∧ (joinWord b0 b1 b2 b3).extractLsb' 16 8 = b1
        ∧ (joinWord b0 b1 b2 b3).extractLsb' 8 8 = b2
        ∧ (joinWord b0 b1 b2 b3).extractLsb' 0 8 = b3 := by
  unfold joinWord
  simp

theorem eq_of_extract_bytes (x y : Instruction)
    (h : ∀ j < 4, x.extractLsb' (8 * j) 8 = y.extractLsb' (8 * j) 8)
    : x = y := by
  apply BitVec.eq_of_getLsbD_eq
  intro i hi
  have hbyte := congrArg (fun b => b.getLsbD (i % 8)) (h (i / 8) (by omega))
  simp only [BitVec.getLsbD_extractLsb', Nat.mod_lt i (by omega : 8 > 0), Nat.div_add_mod] at hbyte
  exact hbyte

theorem joinWord_extract (w : Instruction)
    : joinWord (w.extractLsb' 24 8) (w.extractLsb' 16 8) (w.extractLsb' 8 8) (w.extractLsb' 0 8)
        =
      w := by
  have ⟨h3, h2, h1, h0⟩ := extract_joinWord (w.extractLsb' 24 8) (w.extractLsb' 16 8)
    (w.extractLsb' 8 8) (w.extractLsb' 0 8)
  apply eq_of_extract_bytes
  intro j hj
  match j with
  | 0 => exact h0
  | 1 => exact h1
  | 2 => exact h2
  | 3 => exact h3

def word : Codec Instruction where
  size := 4
  encode w := [w.extractLsb' 24 8, w.extractLsb' 16 8, w.extractLsb' 8 8, w.extractLsb' 0 8]
  decode bs := joinWord (bs.getD 0 0) (bs.getD 1 0) (bs.getD 2 0) (bs.getD 3 0)
  length_encode _ := rfl
  decode_encode w := by
    apply joinWord_extract
  encode_decode bs h := by
    match bs, h with
    | [b0, b1, b2, b3], _ =>
      have ⟨h0, h1, h2, h3⟩ := extract_joinWord b0 b1 b2 b3
      show [(joinWord b0 b1 b2 b3).extractLsb' 24 8, (joinWord b0 b1 b2 b3).extractLsb' 16 8,
        (joinWord b0 b1 b2 b3).extractLsb' 8 8, (joinWord b0 b1 b2 b3).extractLsb' 0 8] = _
      rw [h0, h1, h2, h3]

theorem toBigEndianBytes_eq (instrs : List Instruction)
    : toBigEndianBytes instrs = word.encodeAll instrs := by
  unfold toBigEndianBytes Codec.encodeAll word
  simp only [setWidth_8_ushiftRight]
  simp only [setWidth_8]

@[simp]
theorem length_toBigEndianBytes (instrs : List Instruction)
    : (toBigEndianBytes instrs).length = instrs.length * 4 := by
  rw [toBigEndianBytes_eq]
  apply Codec.length_encodeAll

theorem slice_toBigEndianBytes (before after : List Byte) (instrs : List Instruction) (k : Nat)
    (w : Instruction) (h : instrs[k]? = some w)
    : slice (before ++ toBigEndianBytes instrs ++ after) (before.length + 4 * k) 4
        =
      toBigEndianBytes [w] := by
  have hk := (List.getElem?_eq_some_iff.mp h).choose
  have hslice := Codec.slice_encodeAll word instrs k w h
  rw [← slice_slice _ before.length (toBigEndianBytes instrs).length _ _ (by simp; omega)]
  rw [slice_append_middle, toBigEndianBytes_eq, toBigEndianBytes_eq, Nat.mul_comm]
  exact hslice

theorem readInstructions_eq (bytes : List Byte) (count : Nat)
    : readInstructions bytes count = word.decodeAll count bytes := by
  apply List.ext_getElem?
  intro i
  unfold readInstructions
  rcases Nat.lt_or_ge i count with hlt | hge
  . rw [Codec.getElem?_decodeAll _ _ _ _ hlt, List.getElem?_map, List.getElem?_range hlt]
    have hbyte (j : Nat) (hj : j < 4) : (slice bytes (i * 4) 4).getD j 0 = bytes.getD (i * 4 + j) 0 := by
      rw [List.getD_eq_getElem?_getD, List.getD_eq_getElem?_getD, getElem?_slice]
      simp only [hj, ↓reduceIte]
    show _ = some (joinWord ((slice bytes (i * 4) 4).getD 0 0) ((slice bytes (i * 4) 4).getD 1 0)
      ((slice bytes (i * 4) 4).getD 2 0) ((slice bytes (i * 4) 4).getD 3 0))
    rw [hbyte 0 (by omega), hbyte 1 (by omega), hbyte 2 (by omega), hbyte 3 (by omega)]
    rfl
  . rw [List.getElem?_eq_none (by simp [hge]), List.getElem?_eq_none (by simp [hge])]

theorem readInstructions_toBigEndianBytes (instrs : List Instruction) (rest : List Byte)
    : readInstructions (toBigEndianBytes instrs ++ rest) instrs.length = instrs := by
  rw [readInstructions_eq, toBigEndianBytes_eq, Codec.decodeAll_encodeAll]

@[simp]
theorem length_readInstructions (bytes : List Byte) (count : Nat)
    : (readInstructions bytes count).length = count := by
  rw [readInstructions_eq, Codec.length_decodeAll]

/-
The words of a sequence of bytes, by the value of their digits.
-/

-- The number that `bytes` spell, the most significant one first.
def bigEndian (bytes : List Byte) : Nat := ofDigits bytes.reverse

/--
`bytes` are `words` one after the other, each of them spelled in four bytes.
-/
def HasWords (bytes : List Byte) (words : List Instruction) : Prop :=
  bytes.length = 4 * words.length
    ∧ ∀ k w, words[k]? = some w → bigEndian (slice bytes (4 * k) 4) = w.toNat

theorem bigEndian_encode (w : Instruction) : bigEndian (word.encode w) = w.toNat := by
  show ofDigits [w.extractLsb' 0 8, w.extractLsb' 8 8, w.extractLsb' 16 8, w.extractLsb' 24 8] = _
  have hw := w.isLt
  simp only [ofDigits, BitVec.extractLsb'_toNat, Nat.shiftRight_eq_div_pow]
  omega

theorem eq_of_bigEndian (bs cs : List Byte) (hlen : bs.length = cs.length)
    (h : bigEndian bs = bigEndian cs)
    : bs = cs := by
  apply List.reverse_injective
  rw [← toDigits_ofDigits bs.reverse, ← toDigits_ofDigits cs.reverse, List.length_reverse,
    List.length_reverse, hlen]
  exact congrArg (toDigits cs.length) h

theorem hasWords_toBigEndianBytes (words : List Instruction)
    : HasWords (toBigEndianBytes words) words := by
  refine ⟨by rw [length_toBigEndianBytes, Nat.mul_comm], fun k w hw => ?_⟩
  rw [toBigEndianBytes_eq, Nat.mul_comm]
  show bigEndian (slice (word.encodeAll words) (k * word.size) word.size) = _
  rw [Codec.slice_encodeAll word words k w hw, bigEndian_encode]

theorem HasWords.slice_eq {bytes : List Byte} {words : List Instruction} (h : HasWords bytes words)
    (k : Nat) (w : Instruction) (hw : words[k]? = some w)
    : slice bytes (4 * k) 4 = word.encode w := by
  have hk := (List.getElem?_eq_some_iff.mp hw).choose
  have hlen := h.1
  apply eq_of_bigEndian
  . rw [length_slice _ _ _ (by omega), word.length_encode]
    rfl
  . rw [h.2 k w hw, bigEndian_encode]

-- Bytes of as many words are determined by what they spell.
theorem HasWords.eq {bytes : List Byte} {words : List Instruction} (h : HasWords bytes words)
    : bytes = toBigEndianBytes words := by
  have h' := hasWords_toBigEndianBytes words
  apply List.ext_getElem?
  intro i
  rcases Nat.lt_or_ge i (4 * words.length) with hlt | hge
  . have hw := List.getElem?_eq_getElem (show i / 4 < words.length by omega)
    have hslice := congrArg (fun l => l[i % 4]?) ((h.slice_eq _ _ hw).trans (h'.slice_eq _ _ hw).symm)
    simp only [getElem?_slice, Nat.mod_lt i (by omega : 4 > 0), ↓reduceIte, Nat.div_add_mod] at hslice
    exact hslice
  . rw [List.getElem?_eq_none (by rw [h.1]; exact hge), List.getElem?_eq_none (by rw [h'.1]; exact hge)]

theorem hasWords_readInstructions (bytes : List Byte) (count : Nat) (h : bytes.length = 4 * count)
    : HasWords bytes (readInstructions bytes count) := by
  have heq : toBigEndianBytes (readInstructions bytes count) = bytes := by
    rw [readInstructions_eq, toBigEndianBytes_eq]
    apply Codec.encodeAll_decodeAll
    rw [h, Nat.mul_comm]
    rfl
  have hwords := hasWords_toBigEndianBytes (readInstructions bytes count)
  rw [heq] at hwords
  exact hwords

end Ps3patch
end ElfCraft
