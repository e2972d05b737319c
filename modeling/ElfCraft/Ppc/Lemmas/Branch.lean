import ElfCraft.Ppc.Lemmas.Classify

/-!
This module contains the direct branches: the classifier and the ISA read the displacement back that the
encoders were given.
-/

namespace ElfCraft
namespace Ppc

open Binary detail

variable {W : Nat}

/--
The displacements that a field of `n` bits holds, its two low bits are not stored.
-/
structure Fits (n : Nat) (disp : Int) : Prop where
  aligned : 4 ∣ disp
  lower : -2 ^ (n - 1) ≤ disp
  upper : disp ≤ 2 ^ (n - 1) - 4

instance (n : Nat) (disp : Int) : Decidable (Fits n disp) :=
  decidable_of_iff (4 ∣ disp ∧ -2 ^ (n - 1) ≤ disp ∧ disp ≤ 2 ^ (n - 1) - 4)
    ⟨fun ⟨h1, h2, h3⟩ => ⟨h1, h2, h3⟩, fun ⟨h1, h2, h3⟩ => ⟨h1, h2, h3⟩⟩

namespace Fits

variable {n : Nat} {disp : Int} (h : Fits n disp)
include h

theorem append_zero (k : Nat) (hk : k + 2 = n) (hn : n ≤ 32)
    : (BitVec.ofInt 32 disp).extractLsb' 2 k ++ 0#2 = BitVec.ofInt (k + 2) disp := by
  apply extractLsb'_ofInt_append_zero
  . exact h.aligned
  . omega

/--
The field followed by two zero bits is the displacement, whatever it is extended to.
-/
theorem signExtend_append_zero (k : Nat) (hk : k + 2 = n) (hn : n ≤ 32) (hw : n ≤ W)
    : ((BitVec.ofInt 32 disp).extractLsb' 2 k ++ 0#2).signExtend W = BitVec.ofInt W disp := by
  have hlower := h.lower
  have hupper := h.upper
  rw [h.append_zero k hk hn]
  subst hk
  apply signExtend_ofInt
  . omega
  . exact hlower
  . omega
  . exact hw

theorem toInt_ofInt_32 (hn : n ≤ 32) : (BitVec.ofInt 32 disp).toInt = disp := by
  have hlower := h.lower
  have hupper := h.upper
  have hpow : 2 ^ (n - 1) ≤ 2 ^ 31 := Nat.pow_le_pow_right (by omega) (by omega)
  replace hpow : (2 ^ (n - 1) : Int) ≤ 2 ^ 31 := by exact_mod_cast hpow
  apply toInt_ofInt_of_bounds
  . omega
  . show -2 ^ 31 ≤ disp
    omega
  . show disp < 2 ^ 31
    omega

end Fits

/-
The words of the encoders.
-/

def iForm (target : BitVec 32) (absolute link : Bool) : Instruction :=
  (bits 18 6 <<< 26) ||| (bits target 26 &&& 0xFFFFFFFC#32) ||| (if absolute then 0x2 else 0) |||
    (if link then 0x1 else 0)

def bForm (bo bi target : BitVec 32) (absolute link : Bool) : Instruction :=
  (bits 16 6 <<< 26) ||| (bits bo 5 <<< 21) ||| (bits bi 5 <<< 16) ||| (bits target 16 &&& 0xFFFC#32) |||
    (if absolute then 0x2 else 0) ||| (if link then 0x1 else 0)

-- The tests of the encoders: alignment first, then the bounds of the field.
theorem ite_tests_eq_ok_iff {n : Nat} {disp max min : Int} (e₁ e₂ : InvalidArgument)
    (word w : Instruction) (hmax : max = 2 ^ (n - 1) - 4) (hmin : min = -2 ^ (n - 1))
    : (if disp.tmod 4 ≠ 0 then .error e₁ else if disp > max ∨ disp < min then .error e₂ else .ok word)
          = (.ok w : Except InvalidArgument Instruction)
        ↔
      Fits n disp ∧ w = word := by
  by_cases hfits : Fits n disp
  . have hlower := hfits.lower
    have hupper := hfits.upper
    rw [if_neg (by simp [Int.tmod_eq_zero_of_dvd hfits.aligned]), if_neg (by omega), Except.ok.injEq]
    simp only [hfits, true_and]
    exact eq_comm
  . simp only [hfits, false_and, iff_false]
    intro hok
    split at hok
    . contradiction
    . next halign =>
      split at hok
      . contradiction
      . next hbounds =>
        apply hfits
        constructor
        . exact Int.dvd_of_tmod_eq_zero (Decidable.not_not.mp halign)
        . omega
        . omega

theorem encodeBranch_eq_ok_iff (target : BitVec 32) (absolute link : Bool) (w : Instruction)
    : encodeBranch target absolute link = .ok w
        ↔
      Fits 26 target.toInt ∧ w = iForm target absolute link := by
  unfold encodeBranch
  apply ite_tests_eq_ok_iff
  . rfl
  . rfl

theorem encodeBranchConditional_eq_ok_iff (bo bi target : BitVec 32) (absolute link : Bool)
    (w : Instruction)
    : encodeBranchConditional bo bi target absolute link = .ok w
        ↔
      Fits 16 target.toInt ∧ w = bForm bo bi target absolute link := by
  unfold encodeBranchConditional
  apply ite_tests_eq_ok_iff
  . rfl
  . rfl

section Fields

attribute [local simp] BitVec.extractLsb'_or BitVec.extractLsb'_and

theorem extractLsb'_and_mask (x mask : BitVec 32) (start len : Nat)
    (h : mask.extractLsb' start len = BitVec.allOnes len)
    : (x &&& mask).extractLsb' start len = x.extractLsb' start len := by
  rw [BitVec.extractLsb'_and, h, BitVec.and_allOnes]

variable (bo bi target : BitVec 32) (absolute link : Bool)

theorem opcode_iForm : (iForm target absolute link).extractLsb' 26 6 = 18#6 := by
  cases absolute <;> cases link <;> simp [iForm]

theorem li_iForm : (iForm target absolute link).extractLsb' 2 24 = target.extractLsb' 2 24 := by
  rw [iForm, BitVec.extractLsb'_or, BitVec.extractLsb'_or, BitVec.extractLsb'_or,
    extractLsb'_and_mask _ _ _ _ (by decide)]
  cases absolute <;> cases link <;> simp

theorem aa_iForm : (iForm target absolute link).getLsbD 1 = absolute := by
  cases absolute <;> cases link <;> simp [iForm]

theorem lk_iForm : (iForm target absolute link).getLsbD 0 = link := by
  cases absolute <;> cases link <;> simp [iForm]

theorem opcode_bForm : (bForm bo bi target absolute link).extractLsb' 26 6 = 16#6 := by
  cases absolute <;> cases link <;> simp [bForm]

theorem bo_bForm : (bForm bo bi target absolute link).extractLsb' 21 5 = bo.extractLsb' 0 5 := by
  cases absolute <;> cases link <;> simp [bForm]

theorem bi_bForm : (bForm bo bi target absolute link).extractLsb' 16 5 = bi.extractLsb' 0 5 := by
  cases absolute <;> cases link <;> simp [bForm]

theorem bd_bForm : (bForm bo bi target absolute link).extractLsb' 2 14 = target.extractLsb' 2 14 := by
  rw [bForm, BitVec.extractLsb'_or, BitVec.extractLsb'_or, BitVec.extractLsb'_or,
    extractLsb'_and_mask _ _ _ _ (by decide)]
  cases absolute <;> cases link <;> simp

theorem aa_bForm : (bForm bo bi target absolute link).getLsbD 1 = absolute := by
  cases absolute <;> cases link <;> simp [bForm]

theorem lk_bForm : (bForm bo bi target absolute link).getLsbD 0 = link := by
  cases absolute <;> cases link <;> simp [bForm]

theorem decode_iForm
    : decode (iForm target absolute link) = some (.b (target.extractLsb' 2 24) absolute link) := by
  unfold decode
  dsimp only
  rw [opcode_iForm, li_iForm, aa_iForm, lk_iForm]
  simp

theorem decode_bForm
    : decode (bForm bo bi target absolute link)
        =
      some (.bc (bo.extractLsb' 0 5) (bi.extractLsb' 0 5) (target.extractLsb' 2 14) absolute link) := by
  unfold decode
  dsimp only
  rw [opcode_bForm, bo_bForm, bi_bForm, bd_bForm, aa_bForm, lk_bForm]
  simp

end Fields

/-
The unconditional branch of a jump.
-/

/--
The displacements that the LI field holds.
-/
abbrev Reaches (disp : Int) : Prop := Fits 26 disp

theorem Reaches.lower {disp : Int} (h : Reaches disp) : -33554432 ≤ disp := by
  exact Fits.lower h

theorem Reaches.upper {disp : Int} (h : Reaches disp) : disp ≤ 33554428 := by
  exact Fits.upper h

def branchWord (disp : Int) : Instruction := iForm (BitVec.ofInt 32 disp) false false

theorem encodeBranch_of_reaches {disp : Int} (h : Reaches disp)
    : encodeBranch (BitVec.ofInt 32 disp) false false = .ok (branchWord disp) := by
  rw [encodeBranch_eq_ok_iff, h.toInt_ofInt_32 (by omega)]
  exact ⟨h, rfl⟩

theorem decode_branchWord (disp : Int)
    : decode (branchWord disp)
        =
      some (.b ((BitVec.ofInt 32 disp).extractLsb' 2 24) false false) := by
  apply decode_iForm

theorem classify_branchWord {disp : Int} (h : Reaches disp)
    : classify (branchWord disp)
        =
      { kind := .DirectRelative, displacement := BitVec.ofInt 32 disp } := by
  rw [classify_eq_decoded, decode_branchWord, Option.map_some, Option.getD_some, Insn.decoded,
    h.signExtend_append_zero 24 rfl (by omega) (by omega)]
  rfl

/-
The relative branches and the fix up of them.
-/

theorem classify_of_decode {w : Instruction} {i : Insn} (h : decode w = some i)
    : classify w = i.decoded := by
  rw [classify_eq_decoded, h, Option.map_some, Option.getD_some]

theorem decode_of_relative (w : Instruction) (h : (classify w).kind = .DirectRelative)
    : (∃ li lk, decode w = some (.b li false lk))
        ∨
      ∃ bo bi bd lk, decode w = some (.bc bo bi bd false lk) := by
  rw [classify_eq_decoded] at h
  cases hdecode : decode w with
  | none =>
    rw [hdecode] at h
    contradiction
  | some i =>
    rw [hdecode, Option.map_some, Option.getD_some] at h
    cases i with
    | b li aa lk =>
      cases aa with
      | false => exact .inl ⟨li, lk, rfl⟩
      | true => contradiction
    | bc bo bi bd aa lk =>
      cases aa with
      | false => exact .inr ⟨bo, bi, bd, lk, rfl⟩
      | true => contradiction
    | _ => contradiction

-- The displacement field of a direct branch and the two zero bits behind it.
def DecodedBranch.fieldWidth (branch : DecodedBranch) : Nat :=
  if branch.isConditionalForm then 16 else 26

def DecodedBranch.encoded (branch : DecodedBranch) (target : BitVec 32) : Instruction :=
  if branch.isConditionalForm then
    bForm branch.bo branch.bi target false branch.link
  else
    iForm target false branch.link

-- How far the target of a branch is from the address it moves to.
def relocatedDisp (branch : DecodedBranch) (originalAddr newAddr : BitVec 32) : Int :=
  ((originalAddr + branch.displacement).toNat : Int) - (newAddr.toNat : Int)

theorem add_ofInt_relocatedDisp (branch : DecodedBranch) (originalAddr newAddr : BitVec 32)
    : newAddr + BitVec.ofInt 32 (relocatedDisp branch originalAddr newAddr)
        =
      originalAddr + branch.displacement := by
  apply add_ofInt_sub

theorem DecodedBranch.fieldWidth_le (branch : DecodedBranch) : branch.fieldWidth ≤ 32 := by
  unfold fieldWidth
  split
  . decide
  . decide

theorem relocateBranch_eq_some_iff (branch : DecodedBranch) (originalAddr newAddr : BitVec 32)
    (w : Instruction) (hkind : branch.kind = .DirectRelative)
    : relocateBranch branch originalAddr newAddr = some w
        ↔
      Fits branch.fieldWidth (relocatedDisp branch originalAddr newAddr)
        ∧ w = branch.encoded (BitVec.ofInt 32 (relocatedDisp branch originalAddr newAddr)) := by
  have hoption (x : Except InvalidArgument Instruction) : x.toOption = some w ↔ x = .ok w := by
    cases x <;> simp [Except.toOption]
  unfold relocateBranch
  rw [if_neg (by simp [hkind])]
  dsimp only
  rw [← relocatedDisp]
  split
  . next hout =>
    simp only [reduceCtorEq, false_iff, not_and]
    intro hfits
    have hval := hfits.toInt_ofInt_32 branch.fieldWidth_le
    have hlower := BitVec.le_toInt (BitVec.ofInt 32 (relocatedDisp branch originalAddr newAddr))
    have hupper := BitVec.toInt_lt (x := BitVec.ofInt 32 (relocatedDisp branch originalAddr newAddr))
    omega
  . next hin =>
    have hval : (BitVec.ofInt 32 (relocatedDisp branch originalAddr newAddr)).toInt
        = relocatedDisp branch originalAddr newAddr := by
      apply toInt_ofInt_of_bounds
      . decide
      . show -2147483648 ≤ _
        omega
      . show _ < 2147483648
        omega
    unfold DecodedBranch.fieldWidth DecodedBranch.encoded
    split
    . rw [hoption, encodeBranchConditional_eq_ok_iff, hval]
    . rw [hoption, encodeBranch_eq_ok_iff, hval]

/--
A relative branch with another displacement is classified as before up to that.
-/
theorem classify_encoded (w : Instruction) (disp : Int) (hkind : (classify w).kind = .DirectRelative)
    (hfits : Fits (classify w).fieldWidth disp)
    : classify ((classify w).encoded (BitVec.ofInt 32 disp))
        =
      { classify w with displacement := BitVec.ofInt 32 disp } := by
  rcases decode_of_relative w hkind with ⟨li, lk, hdecode⟩ | ⟨bo, bi, bd, lk, hdecode⟩
  . rw [classify_of_decode hdecode] at *
    have hword := classify_of_decode (decode_iForm (BitVec.ofInt 32 disp) false lk)
    have hli : Fits 26 disp := hfits
    have hdisp := hli.signExtend_append_zero (W := 32) 24 rfl (by decide) (by decide)
    simp only [Insn.decoded, hdisp] at hword
    exact hword
  . rw [classify_of_decode hdecode] at *
    have hword := classify_of_decode (decode_bForm (bo.setWidth 32) (bi.setWidth 32) (BitVec.ofInt 32 disp)
      false lk)
    have hbd : Fits 16 disp := hfits
    have hdisp := hbd.signExtend_append_zero (W := 32) 14 rfl (by decide) (by decide)
    simp only [Insn.decoded, hdisp, extractLsb'_setWidth_self _ (by omega : 5 ≤ 32)] at hword
    exact hword

end Ppc
end ElfCraft
