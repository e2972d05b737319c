import ElfCraft.Ppc.Decode
import ElfCraft.Ppc.Lemmas.Decode

/-!
This module contains the classifier next to the ISA: what it says about a word is a fact about the
instruction that the ISA reads out of the word.
-/

namespace ElfCraft
namespace Ppc

open Binary detail

/--
What there is to classify about an instruction.
-/
def Insn.decoded (i : Insn) : DecodedBranch :=
  match i with
  | .b li aa lk =>
    if aa then
      { kind := .DirectAbsolute, link := lk, absoluteTarget := (li ++ 0#2).signExtend 32 }
    else
      { kind := .DirectRelative, link := lk, displacement := (li ++ 0#2).signExtend 32 }
  | .bc bo bi bd aa lk =>
    if aa then
      { kind := .DirectAbsolute, link := lk, isConditionalForm := true, bo := bo.setWidth 32
        bi := bi.setWidth 32, absoluteTarget := (bd ++ 0#2).signExtend 32 }
    else
      { kind := .DirectRelative, link := lk, isConditionalForm := true, bo := bo.setWidth 32
        bi := bi.setWidth 32, displacement := (bd ++ 0#2).signExtend 32 }
  | .bclr _ _ lk => { kind := .ToLinkRegister, link := lk }
  | .bcctr _ _ lk => { kind := .ToCountRegister, link := lk }
  | _ => {}

section Fields

variable (w : Instruction)

theorem decide_and_twoPow (mask : BitVec 32) (i : Nat) (hmask : mask = BitVec.twoPow 32 i)
    : decide (w &&& mask ≠ 0) = w.getLsbD i := by
  rw [hmask, BitVec.and_twoPow]
  cases hbit : w.getLsbD i with
  | false => simp
  | true =>
    have hi : i < 32 := by
      apply Decidable.by_contra
      intro hge
      rw [BitVec.getLsbD_of_ge w i (by omega)] at hbit
      contradiction
    have hne : BitVec.twoPow 32 i ≠ 0#32 := by
      intro heq
      have hat := congrArg (fun x => x.getLsbD i) heq
      simp [hi] at hat
    simp [hne]

/--
The displacement field of a branch of `n + 2` bits, with the two low bits cleared.
-/
theorem and_mask_eq_setWidth (mask : BitVec 32) (n : Nat)
    (hmask : ∀ i < 32, mask.getLsbD i = (decide (2 ≤ i) && decide (i < n + 2)))
    : w &&& mask = (w.extractLsb' 2 n ++ 0#2).setWidth 32 := by
  apply BitVec.eq_of_getLsbD_eq
  intro i hi
  rw [BitVec.getLsbD_and, hmask i hi, BitVec.getLsbD_setWidth, BitVec.getLsbD_append,
    BitVec.getLsbD_extractLsb']
  by_cases hlow : i < 2
  . simp [hlow]
  . simp only [hi, hlow, show 2 ≤ i by omega, show 2 + (i - 2) = i by omega, decide_true, Bool.true_and,
      ↓reduceIte]
    rw [Bool.and_comm]
    congr 1
    simp only [decide_eq_decide]
    omega

theorem liRaw_eq : w &&& 0x03FFFFFC#32 = (w.extractLsb' 2 24 ++ 0#2).setWidth 32 := by
  apply and_mask_eq_setWidth w _ 24
  decide

theorem bdRaw_eq : w &&& 0x0000FFFC#32 = (w.extractLsb' 2 14 ++ 0#2).setWidth 32 := by
  apply and_mask_eq_setWidth w _ 14
  decide

theorem opcode_eq : (w >>> 26) &&& 0x3F#32 = (w.extractLsb' 26 6).setWidth 32 := by
  exact lowBits_ushiftRight w 26 6

theorem bo_eq : (w >>> 21) &&& 0x1F#32 = (w.extractLsb' 21 5).setWidth 32 := by
  exact lowBits_ushiftRight w 21 5

theorem bi_eq : (w >>> 16) &&& 0x1F#32 = (w.extractLsb' 16 5).setWidth 32 := by
  exact lowBits_ushiftRight w 16 5

theorem xo_eq : (w >>> 1) &&& 0x3FF#32 = (w.extractLsb' 1 10).setWidth 32 := by
  exact lowBits_ushiftRight w 1 10

end Fields

theorem setWidth_eq_setWidth_iff {n : Nat} (x y : BitVec n) (hn : n ≤ 32)
    : x.setWidth 32 = y.setWidth 32 ↔ x = y := by
  constructor
  . intro h
    have hback := congrArg (fun z => z.extractLsb' 0 n) h
    simp only [extractLsb'_setWidth_self _ hn] at hback
    exact hback
  . intro h
    rw [h]

theorem detail.signExtend_setWidth {n : Nat} (x : BitVec n) (hpos : 0 < n) (hn : n ≤ 32)
    : signExtend (x.setWidth 32) n = x.signExtend 32 := by
  have hbit : (1#32 <<< (n - 1)) = BitVec.twoPow 32 (n - 1) := by
    rw [BitVec.twoPow]
  have hmsb : (x.setWidth 32).getLsbD (n - 1) = x.msb := by
    rw [BitVec.getLsbD_setWidth, BitVec.msb_eq_getLsbD_last]
    simp [show n - 1 < 32 by omega]
  have hx := x.isLt
  have hpow : 2 ^ n ≤ 2 ^ 32 := Nat.pow_le_pow_right (by omega) hn
  have htwice : 2 ^ n = 2 * 2 ^ (n - 1) := by
    rw [← Nat.pow_succ']
    congr 1
    omega
  have hval : (x.setWidth 32).toNat = x.toNat := by
    rw [BitVec.toNat_setWidth, Nat.mod_eq_of_lt (by omega)]
  have hone : (BitVec.twoPow 32 (n - 1)).toNat = 2 ^ (n - 1) := by
    rw [BitVec.toNat_twoPow, Nat.mod_eq_of_lt (by omega)]
  unfold signExtend
  dsimp only
  rw [hbit]
  cases hsign : x.msb with
  | false =>
    rw [hsign] at hmsb
    rw [xor_twoPow_eq_add _ hmsb, BitVec.add_sub_cancel, BitVec.signExtend_eq_setWidth_of_msb_false hsign]
  | true =>
    rw [hsign] at hmsb
    have hclear : (x.setWidth 32 ^^^ BitVec.twoPow 32 (n - 1)).getLsbD (n - 1) = false := by
      rw [BitVec.getLsbD_xor, hmsb, BitVec.getLsbD_twoPow]
      simp
      omega
    have hsum := congrArg BitVec.toNat (xor_twoPow_eq_add _ hclear)
    rw [BitVec.xor_assoc, BitVec.xor_self, BitVec.xor_zero, BitVec.toNat_add, hval, hone] at hsum
    have hge : 2 ^ (n - 1) ≤ x.toNat := by
      have := BitVec.msb_eq_true_iff_two_mul_ge.mp hsign
      omega
    have hlt := (x.setWidth 32 ^^^ BitVec.twoPow 32 (n - 1)).isLt
    apply BitVec.eq_of_toNat_eq
    rw [BitVec.toNat_sub, BitVec.toNat_signExtend, hone, hval, hsign]
    simp only [↓reduceIte]
    omega

theorem decoded_ite {c : Prop} [Decidable c] {x y : Option Insn} {d : DecodedBranch}
    (hx : d = (x.map Insn.decoded).getD d) (hy : d = (y.map Insn.decoded).getD d)
    : d = ((if c then x else y).map Insn.decoded).getD d := by
  split
  . exact hx
  . exact hy

theorem classify_eq_decoded (w : Instruction)
    : classify w
        =
      ((decode w).map Insn.decoded).getD {} := by
  have haa := decide_and_twoPow w 0x2#32 1 rfl
  have hlk := decide_and_twoPow w 0x1#32 0 rfl
  have hli := detail.signExtend_setWidth (w.extractLsb' 2 24 ++ 0#2) (by omega) (by omega)
  have hbd := detail.signExtend_setWidth (w.extractLsb' 2 14 ++ 0#2) (by omega) (by omega)
  have hop (k : BitVec 6) := setWidth_eq_setWidth_iff (w.extractLsb' 26 6) k (by omega)
  have hxo (k : BitVec 10) := setWidth_eq_setWidth_iff (w.extractLsb' 1 10) k (by omega)
  have h18 : (w.extractLsb' 26 6).setWidth 32 = 18#32 ↔ _ := hop 18
  have h16 : (w.extractLsb' 26 6).setWidth 32 = 16#32 ↔ _ := hop 16
  have h19 : (w.extractLsb' 26 6).setWidth 32 = 19#32 ↔ _ := hop 19
  have hx16 : (w.extractLsb' 1 10).setWidth 32 = 16#32 ↔ _ := hxo 16
  have hx528 : (w.extractLsb' 1 10).setWidth 32 = 528#32 ↔ _ := hxo 528
  unfold classify
  dsimp only
  rw [haa, hlk, opcode_eq, xo_eq, bo_eq, bi_eq, liRaw_eq, bdRaw_eq, hli, hbd]
  simp only [BitVec.ofNat_eq_ofNat, h18, h16, h19, hx16, hx528]
  by_cases hb : w.extractLsb' 26 6 = 18#6
  . simp [decode, hb, Insn.decoded]
  by_cases hbc : w.extractLsb' 26 6 = 16#6
  . simp [decode, hbc, Insn.decoded]
  by_cases hxl : w.extractLsb' 26 6 = 19#6
  . by_cases hlr : w.extractLsb' 1 10 = 16#10
    . simp [decode, hxl, hlr, Insn.decoded]
    by_cases hctr : w.extractLsb' 1 10 = 528#10
    . simp [decode, hxl, hctr, Insn.decoded]
    . simp [decode, hxl, hlr, hctr]
  -- None of the other forms is a branch.
  simp only [decode, BitVec.ofNat_eq_ofNat, hb, hbc, hxl, false_and, ↓reduceIte]
  repeat' apply decoded_ite
  all_goals cases decodeSpr w <;> rfl

end Ppc
end ElfCraft
