import ElfCraft.Elf.Endian

/-!
This module contains the proof that a swap reverses the bytes of an integer, so that `get` undoes
`set`.
-/

namespace ElfCraft
namespace Elf

open Binary detail

attribute [local simp] BitVec.extractLsb'_or BitVec.extractLsb'_and BitVec.extractLsb'_setWidth_of_le

theorem ofNat_8_toNat_div {w : Nat} (v : BitVec w) (i : Nat)
    : BitVec.ofNat 8 (v.toNat / 256 ^ i) = v.extractLsb' (8 * i) 8 := by
  apply BitVec.eq_of_toNat_eq
  rw [BitVec.extractLsb'_toNat, BitVec.toNat_ofNat, Nat.shiftRight_eq_div_pow, Nat.pow_mul]

theorem toDigits_div (n v i : Nat)
    : toDigits n (v / 256 ^ i) = (List.range n).map fun j => BitVec.ofNat 8 (v / 256 ^ (i + j)) := by
  induction n generalizing i with
  | zero => rfl
  | succ n ih =>
    rw [toDigits, Nat.div_div_eq_div_mul, ← Nat.pow_succ, ih, List.range_succ_eq_map]
    simp only [List.map_cons, List.map_map, Nat.add_zero, Nat.succ_eq_add_one, List.cons.injEq,
      true_and]
    apply List.map_congr_left
    intro j _
    simp only [Function.comp_apply]
    rw [show i + 1 + j = i + (j + 1) by omega]

theorem toDigits_eq_extract {w : Nat} (v : BitVec w) (n : Nat)
    : toDigits n v.toNat = (List.range n).map fun i => v.extractLsb' (8 * i) 8 := by
  have h := toDigits_div n v.toNat 0
  rw [Nat.pow_zero, Nat.div_one] at h
  rw [h]
  apply List.map_congr_left
  intro i _
  rw [Nat.zero_add, ofNat_8_toNat_div]

@[local simp]
theorem and_0xFF (b : BitVec 8) : b &&& 255#8 = b := by
  rw [show 255#8 = BitVec.allOnes 8 by decide, BitVec.and_allOnes]

theorem byteswap16_reverses (v : BitVec 16)
    : toDigits 2 (byteswap16 v).toNat = (toDigits 2 v.toNat).reverse := by
  rw [toDigits_eq_extract, toDigits_eq_extract]
  simp [List.range_succ, byteswap16]

theorem byteswap32_reverses (v : BitVec 32)
    : toDigits 4 (byteswap32 v).toNat = (toDigits 4 v.toNat).reverse := by
  rw [toDigits_eq_extract, toDigits_eq_extract]
  simp [List.range_succ, byteswap32]

theorem byteswap64_reverses (v : BitVec 64)
    : toDigits 8 (byteswap64 v).toNat = (toDigits 8 v.toNat).reverse := by
  rw [toDigits_eq_extract, toDigits_eq_extract]
  simp [List.range_succ, byteswap64, byteswap32]

theorem involutive_of_reverses (n : Nat) (f : BitVec (8 * n) → BitVec (8 * n))
    (h : ∀ v, toDigits n (f v).toNat = (toDigits n v.toNat).reverse) (v : BitVec (8 * n))
    : f (f v) = v := by
  have hlt (x : BitVec (8 * n)) : x.toNat < 256 ^ n := by
    rw [show 256 ^ n = 2 ^ (8 * n) by rw [Nat.pow_mul]]
    exact x.isLt
  have htwice : toDigits n (f (f v)).toNat = toDigits n v.toNat := by
    rw [h, h, List.reverse_reverse]
  apply BitVec.eq_of_toNat_eq
  rw [← ofDigits_toDigits n _ (hlt _), htwice, ofDigits_toDigits n _ (hlt _)]

class LawfulSwappable (w : Nat) [Swappable w] : Prop where
  byteswap_byteswap : ∀ (v : BitVec w), Swappable.byteswap (Swappable.byteswap v) = v

instance : LawfulSwappable 16 := ⟨involutive_of_reverses 2 byteswap16 byteswap16_reverses⟩

instance : LawfulSwappable 32 := ⟨involutive_of_reverses 4 byteswap32 byteswap32_reverses⟩

instance : LawfulSwappable 64 := ⟨involutive_of_reverses 8 byteswap64 byteswap64_reverses⟩

@[simp]
theorem Endianed.get_set {w : Nat} [Swappable w] [LawfulSwappable w] {order : Endian} (v : BitVec w)
    : (set v : Endianed w order).get = v := by
  unfold get set
  split
  . apply LawfulSwappable.byteswap_byteswap
  . rfl

end Elf
end ElfCraft
