import Mathlib.Data.Nat.Bitwise

/-!
This module contains the arithmetic of packed words: a field is a run of bits that is masked to its
width, shifted into place and or-ed to the rest of the word. Reading a run of bits out of such a word
again only depends on the field that covers it.
-/

namespace ElfCraft
namespace Binary

variable {W : Nat}

/--
The low `n` bits of `x`, everything above them cleared.
-/
def lowBits (x : BitVec W) (n : Nat) : BitVec W :=
  x &&& ((1#W <<< n) - 1#W)

theorem getLsbD_lowBits (x : BitVec W) (n i : Nat)
    : (lowBits x n).getLsbD i = (decide (i < n) && x.getLsbD i) := by
  unfold lowBits
  by_cases hi : i < W
  . rw [BitVec.getLsbD_and]
    have hmask : ((1#W <<< n) - 1#W).getLsbD i = decide (i < n) := by
      by_cases hn : n < W
      . have hpow : 2 ^ n < 2 ^ W := Nat.pow_lt_pow_right (by omega) hn
        have hpos : 0 < 2 ^ n := Nat.two_pow_pos n
        have hval : ((1#W <<< n) - 1#W).toNat = 2 ^ n - 1 := by
          have hone : 1 % 2 ^ W = 1 := Nat.mod_eq_of_lt (by omega)
          have hle : 2 ^ W - 1 + 2 ^ n = 2 ^ W + (2 ^ n - 1) := by omega
          simp only [BitVec.toNat_sub, BitVec.toNat_shiftLeft, BitVec.toNat_ofNat,
            Nat.shiftLeft_eq, hone, Nat.one_mul, Nat.mod_eq_of_lt hpow, hle]
          rw [Nat.add_mod_left, Nat.mod_eq_of_lt (by omega)]
        rw [← BitVec.testBit_toNat, hval, Nat.testBit_two_pow_sub_one]
      . have hzero : (1#W <<< n) = 0#W := BitVec.shiftLeft_eq_zero (by omega)
        rw [hzero, BitVec.zero_sub, BitVec.neg_one_eq_allOnes, BitVec.getLsbD_allOnes]
        simp only [hi, show i < n by omega]
    rw [hmask, Bool.and_comm]
  . rw [BitVec.getLsbD_of_ge _ _ (by omega), BitVec.getLsbD_of_ge _ _ (by omega), Bool.and_false]

@[simp]
theorem extractLsb'_lowBits_of_le (x : BitVec W) {n start len : Nat} (h : start + len ≤ n)
    : (lowBits x n).extractLsb' start len = x.extractLsb' start len := by
  apply BitVec.eq_of_getLsbD_eq
  intro i hi
  simp only [BitVec.getLsbD_extractLsb', getLsbD_lowBits]
  have : start + i < n := by omega
  simp [this]

@[simp]
theorem extractLsb'_lowBits_of_ge (x : BitVec W) {n start len : Nat} (h : n ≤ start)
    : (lowBits x n).extractLsb' start len = 0#(len) := by
  apply BitVec.eq_of_getLsbD_eq
  intro i hi
  simp only [BitVec.getLsbD_extractLsb', getLsbD_lowBits]
  have : ¬ (start + i < n) := by omega
  simp [this]

@[simp]
theorem extractLsb'_shiftLeft_of_ge (x : BitVec W) {k start len : Nat} (h : k ≤ start)
    (hfit : start + len ≤ W)
    : (x <<< k).extractLsb' start len = x.extractLsb' (start - k) len := by
  apply BitVec.eq_of_getLsbD_eq
  intro i hi
  simp only [BitVec.getLsbD_extractLsb', BitVec.getLsbD_shiftLeft]
  have h1 : start + i < W := by omega
  have h2 : ¬ (start + i < k) := by omega
  have h3 : start + i - k = start - k + i := by omega
  simp [h1, h2, h3]

@[simp]
theorem extractLsb'_shiftLeft_of_lt (x : BitVec W) {k start len : Nat} (h : start + len ≤ k)
    : (x <<< k).extractLsb' start len = 0#(len) := by
  apply BitVec.eq_of_getLsbD_eq
  intro i hi
  simp only [BitVec.getLsbD_extractLsb', BitVec.getLsbD_shiftLeft]
  have : start + i < k := by omega
  simp [this]

@[simp]
theorem extractLsb'_ushiftRight (x : BitVec W) (k start len : Nat)
    : (x >>> k).extractLsb' start len = x.extractLsb' (start + k) len := by
  apply BitVec.eq_of_getLsbD_eq
  intro i hi
  simp only [BitVec.getLsbD_extractLsb', BitVec.getLsbD_ushiftRight]
  rw [show k + (start + i) = start + k + i by omega]

@[simp]
theorem extractLsb'_of_ge (x : BitVec W) {start len : Nat} (h : W ≤ start)
    : x.extractLsb' start len = 0#(len) := by
  apply BitVec.eq_of_getLsbD_eq
  intro i hi
  rw [BitVec.getLsbD_extractLsb', BitVec.getLsbD_of_ge x _ (by omega), Bool.and_false,
    BitVec.getLsbD_zero]

theorem extractLsb'_setWidth_of_le {n m start len : Nat} (x : BitVec n) (h : n ≤ m) (hlen : start + len ≤ n)
    : (x.setWidth m).extractLsb' start len = x.extractLsb' start len := by
  apply BitVec.eq_of_getLsbD_eq
  intro i hi
  rw [BitVec.getLsbD_extractLsb', BitVec.getLsbD_extractLsb', BitVec.getLsbD_setWidth]
  simp [show start + i < m by omega]

@[simp]
theorem extractLsb'_setWidth_self {n m : Nat} (x : BitVec n) (h : n ≤ m)
    : (x.setWidth m).extractLsb' 0 n = x := by
  rw [extractLsb'_setWidth_of_le x h (by omega), BitVec.extractLsb'_eq_self]

theorem lowBits_ushiftRight (x : BitVec W) (k n : Nat)
    : lowBits (x >>> k) n = (x.extractLsb' k n).setWidth W := by
  apply BitVec.eq_of_getLsbD_eq
  intro i hi
  rw [getLsbD_lowBits, BitVec.getLsbD_ushiftRight, BitVec.getLsbD_setWidth,
    BitVec.getLsbD_extractLsb']
  simp only [hi, decide_true, Bool.true_and]

/-
Words that agree on runs of bits next to each other agree on all of these bits.
-/

theorem extractLsb'_eq_of_parts {x y : BitVec W} {start n m : Nat}
    (hlow : x.extractLsb' start n = y.extractLsb' start n)
    (hhigh : x.extractLsb' (start + n) m = y.extractLsb' (start + n) m)
    : x.extractLsb' start (m + n) = y.extractLsb' start (m + n) := by
  rw [← BitVec.extractLsb'_append_extractLsb'_eq_extractLsb' (by rfl),
    ← BitVec.extractLsb'_append_extractLsb'_eq_extractLsb' (by rfl), hlow, hhigh]

theorem extractLsb'_one_eq {x y : BitVec W} {i : Nat} (h : x.getLsbD i = y.getLsbD i)
    : x.extractLsb' i 1 = y.extractLsb' i 1 := by
  apply BitVec.eq_of_getLsbD_eq
  intro k hk
  rw [BitVec.getLsbD_extractLsb', BitVec.getLsbD_extractLsb', show i + k = i by omega, h]

theorem eq_of_extractLsb'_zero_eq {x y : BitVec W} (h : x.extractLsb' 0 W = y.extractLsb' 0 W) : x = y := by
  rw [BitVec.extractLsb'_eq_self, BitVec.extractLsb'_eq_self] at h
  exact h

theorem extractLsb'_signExtend_append_zero {n : Nat} (x : BitVec n) (hn : n + 2 ≤ W)
    : ((x ++ 0#2).signExtend W).extractLsb' 2 n = x := by
  apply BitVec.eq_of_getLsbD_eq
  intro i hi
  rw [BitVec.getLsbD_extractLsb', BitVec.getLsbD_signExtend, if_pos (by omega), BitVec.getLsbD_append,
    if_neg (by omega), Nat.add_sub_cancel_left]
  simp only [hi, show 2 + i < W by omega, decide_true, Bool.true_and]

/-
Signed numbers in a field.
-/

-- Flipping a bit that is clear carries nowhere.
theorem xor_twoPow_eq_add (x : BitVec W) {i : Nat} (h : x.getLsbD i = false)
    : x ^^^ BitVec.twoPow W i = x + BitVec.twoPow W i := by
  rw [BitVec.add_eq_or_of_and_eq_zero]
  . apply BitVec.eq_of_getLsbD_eq
    intro k hk
    rw [BitVec.getLsbD_xor, BitVec.getLsbD_or, BitVec.getLsbD_twoPow]
    by_cases heq : i = k
    . rw [← heq, h, Bool.false_xor, Bool.false_or]
    . simp only [heq, decide_false, Bool.and_false, Bool.xor_false, Bool.or_false]
  . rw [BitVec.and_twoPow, h]
    rfl

theorem toInt_ofInt_of_bounds {n : Nat} {disp : Int} (hpos : 0 < n) (hlower : -2 ^ (n - 1) ≤ disp)
    (hupper : disp < 2 ^ (n - 1))
    : (BitVec.ofInt n disp).toInt = disp := by
  apply BitVec.toInt_ofInt_eq_self hpos
  . exact hlower
  . exact hupper

theorem signExtend_ofInt {n : Nat} {disp : Int} (hpos : 0 < n) (hlower : -2 ^ (n - 1) ≤ disp)
    (hupper : disp < 2 ^ (n - 1)) (hw : n ≤ W)
    : (BitVec.ofInt n disp).signExtend W = BitVec.ofInt W disp := by
  have hpow : (2 ^ (n - 1) : Nat) ≤ 2 ^ (W - 1) := Nat.pow_le_pow_right (by omega) (by omega)
  replace hpow : (2 ^ (n - 1) : Int) ≤ 2 ^ (W - 1) := by exact_mod_cast hpow
  apply BitVec.eq_of_toInt_eq
  rw [BitVec.toInt_signExtend_of_le hw, toInt_ofInt_of_bounds hpos hlower hupper,
    toInt_ofInt_of_bounds (by omega) (by omega) (by omega)]

theorem extractLsb'_zero_ofInt {disp : Int} (n : Nat) (hn : n ≤ W)
    : (BitVec.ofInt W disp).extractLsb' 0 n = BitVec.ofInt n disp := by
  have hpos := Nat.two_pow_pos W
  have hdvd : ((2 ^ n : Nat) : Int) ∣ (2 ^ W : Nat) := by
    rw [Int.natCast_dvd_natCast]
    apply Nat.pow_dvd_pow 2 hn
  have hnonneg : 0 ≤ disp % (2 ^ W : Nat) := Int.emod_nonneg _ (by omega)
  apply BitVec.eq_of_toNat_eq
  rw [BitVec.extractLsb'_toNat, BitVec.toNat_ofInt, BitVec.toNat_ofInt, Nat.shiftRight_zero,
    ← Int.emod_emod_of_dvd disp hdvd, Int.toNat_emod hnonneg (Int.natCast_nonneg _), Int.toNat_natCast]

theorem extractLsb'_ofInt_append_zero {disp : Int} (n : Nat) (h : 4 ∣ disp) (hn : n + 2 ≤ W)
    : (BitVec.ofInt W disp).extractLsb' 2 n ++ 0#2 = BitVec.ofInt (n + 2) disp := by
  have hlow : (BitVec.ofInt W disp).extractLsb' 0 2 = 0#2 := by
    rw [extractLsb'_zero_ofInt 2 (by omega)]
    apply BitVec.eq_of_toNat_eq
    rw [BitVec.toNat_ofInt, BitVec.toNat_ofNat]
    omega
  rw [← hlow, BitVec.extractLsb'_append_extractLsb'_eq_extractLsb' (by rfl)]
  apply extractLsb'_zero_ofInt _ hn

/--
Going as far as two numbers are apart leads from the one to the other, in a larger width too.
-/
theorem setWidth_add_ofInt_sub (V : Nat) (x y : BitVec W)
    : x.setWidth V + BitVec.ofInt V ((y.toNat : Int) - (x.toNat : Int)) = y.setWidth V := by
  rw [Int.sub_eq_add_neg, BitVec.ofInt_add, BitVec.ofInt_neg, BitVec.ofInt_natCast, BitVec.ofInt_natCast,
    BitVec.ofNat_toNat, BitVec.ofNat_toNat, BitVec.add_comm, BitVec.add_assoc, BitVec.add_left_neg, BitVec.add_zero]

theorem add_ofInt_sub (x y : BitVec W)
    : x + BitVec.ofInt W ((y.toNat : Int) - (x.toNat : Int)) = y := by
  have h := setWidth_add_ofInt_sub W x y
  rw [BitVec.setWidth_eq, BitVec.setWidth_eq] at h
  exact h

end Binary
end ElfCraft
