import ElfCraft.Ppc.Lemmas.LoadImmediate

/-!
This module contains what the rotate and mask instruction of `encodeRldicl` does on a processor. The
encoder does not split the mask start as the MD-form does, so the mask that is applied starts at another
bit.
-/

namespace ElfCraft
namespace Ppc

variable {ρ : Type} (trap : Machine ρ → Machine ρ)

theorem getLsbD_and_mask63 (x : BitVec 64) (b : BitVec 6) (i : Nat)
    : (x &&& mask63 b).getLsbD i = (decide (i < 64 - b.toNat) && x.getLsbD i) := by
  have hb := b.isLt
  unfold mask63
  rw [BitVec.getLsbD_and, BitVec.getLsbD_ushiftRight, BitVec.getLsbD_allOnes, Bool.and_comm]
  congr 1
  simp only [decide_eq_decide]
  omega

-- ISA bit `p` of a doubleword is bit `63 - p`.
theorem and_mask63_eq_iff (x : BitVec 64) (b b' : BitVec 6)
    : x &&& mask63 b = x &&& mask63 b'
        ↔
      ∀ p, min b.toNat b'.toNat ≤ p → p < max b.toNat b'.toNat → x.getLsbD (63 - p) = false := by
  have hb := b.isLt
  have hb' := b'.isLt
  constructor
  . intro h p hmin hmax
    have hbit := congrArg (fun y => y.getLsbD (63 - p)) h
    simp only [getLsbD_and_mask63] at hbit
    rcases Nat.lt_or_ge p b.toNat with hp | hp
    . simpa [show ¬ (63 - p < 64 - b.toNat) by omega, show 63 - p < 64 - b'.toNat by omega] using hbit
    . simpa [show 63 - p < 64 - b.toNat by omega, show ¬ (63 - p < 64 - b'.toNat) by omega] using hbit
  . intro h
    apply BitVec.eq_of_getLsbD_eq
    intro i hi
    rw [getLsbD_and_mask63, getLsbD_and_mask63]
    -- Either no mask or both of them keep the bit, unless it is one of those that are clear.
    by_cases hkeeps : i < 64 - b.toNat ↔ i < 64 - b'.toNat
    . simp only [hkeeps]
    . have hclear := h (63 - i) (by omega) (by omega)
      rw [show 63 - (63 - i) = i by omega] at hclear
      rw [hclear, Bool.and_false, Bool.and_false]

theorem toNat_storedMb (mb : BitVec 6)
    : (storedMb mb).toNat = 32 * (mb.toNat % 2) + mb.toNat / 2 := by
  revert mb
  decide

theorem storedMb_eq_self_iff (mb : BitVec 6) : storedMb mb = mb ↔ mb = 0 ∨ mb = 63 := by
  revert mb
  decide

/--
The bits of `x` between the mask start `mb` and the one that the ISA reads out of the word are clear: the
lowest bit of `mb` counts 32 there and the others count half.
-/
def ClearBetween (mb : BitVec 6) (x : BitVec 64) : Prop :=
  ∀ p, min mb.toNat (32 * (mb.toNat % 2) + mb.toNat / 2) ≤ p →
    p < max mb.toNat (32 * (mb.toNat % 2) + mb.toNat / 2) → x.getLsbD (63 - p) = false

theorem clearBetween_iff (mb : BitVec 6) (x : BitVec 64)
    : ClearBetween mb x ↔ x &&& mask63 (storedMb mb) = x &&& mask63 mb := by
  unfold ClearBetween
  rw [eq_comm, and_mask63_eq_iff, toNat_storedMb]

def RotatesExactly (ra rs : BitVec 5) (sh mb : BitVec 6) (m : Machine ρ) : Prop :=
  ∃ m', execWords trap
      [encodeRldicl (ra.setWidth 32) (rs.setWidth 32) (sh.setWidth 32) (mb.setWidth 32) false] m = some m'
    ∧ m'.gpr ra = (m.gpr rs).rotateLeft sh.toNat &&& mask63 mb

def ClearsExactly (ra rs : BitVec 5) (n : BitVec 6) (m : Machine ρ) : Prop :=
  ∃ m', execWords trap [encodeClrldi (ra.setWidth 32) (rs.setWidth 32) (n.setWidth 32)] m = some m'
    ∧ ∀ i, (m'.gpr ra).getLsbD i = (decide (i < 64 - n.toNat) && (m.gpr rs).getLsbD i)

theorem execWords_encodeRldicl (ra rs : BitVec 5) (sh mb : BitVec 6) (m : Machine ρ)
    : execWords trap
          [encodeRldicl (ra.setWidth 32) (rs.setWidth 32) (sh.setWidth 32) (mb.setWidth 32) false] m
        =
      some (m.setGpr ra ((m.gpr rs).rotateLeft sh.toNat &&& mask63 (storedMb mb))).next := by
  simp only [execWords, decode_encodeRldicl, exec]

theorem gpr_next_setGpr (m : Machine ρ) (r : BitVec 5) (v : BitVec 64) : (m.setGpr r v).next.gpr r = v := by
  simp [Machine.next]

theorem rotatesExactly_iff (ra rs : BitVec 5) (sh mb : BitVec 6) (m : Machine ρ)
    : RotatesExactly trap ra rs sh mb m ↔ ClearBetween mb ((m.gpr rs).rotateLeft sh.toNat) := by
  unfold RotatesExactly
  rw [execWords_encodeRldicl, clearBetween_iff]
  constructor
  . rintro ⟨m', hm', hra⟩
    rw [← Option.some.inj hm', gpr_next_setGpr] at hra
    exact hra
  . intro h
    exact ⟨_, rfl, by rw [gpr_next_setGpr, h]⟩

-- `clrldi` is the rotation by 0.
theorem clearsExactly_iff_rotatesExactly (ra rs : BitVec 5) (n : BitVec 6) (m : Machine ρ)
    : ClearsExactly trap ra rs n m ↔ RotatesExactly trap ra rs 0 n m := by
  have hword : encodeClrldi (ra.setWidth 32) (rs.setWidth 32) (n.setWidth 32)
      = encodeRldicl (ra.setWidth 32) (rs.setWidth 32) ((0 : BitVec 6).setWidth 32) (n.setWidth 32) false := rfl
  have hbits (x : BitVec 64)
      : (∀ i, x.getLsbD i = (decide (i < 64 - n.toNat) && (m.gpr rs).getLsbD i))
          ↔
        x = (m.gpr rs).rotateLeft (0 : BitVec 6).toNat &&& mask63 n := by
    rw [show (0 : BitVec 6).toNat = 0 from rfl, rotateLeft_zero]
    simp only [← getLsbD_and_mask63]
    constructor
    . intro h
      apply BitVec.eq_of_getLsbD_eq
      intro i hi
      apply h
    . intro h i
      rw [h]
  unfold ClearsExactly RotatesExactly
  simp only [hword, hbits]

theorem clearsExactly_iff (ra rs : BitVec 5) (n : BitVec 6) (m : Machine ρ)
    : ClearsExactly trap ra rs n m ↔ ClearBetween n (m.gpr rs) := by
  rw [clearsExactly_iff_rotatesExactly, rotatesExactly_iff, show (0 : BitVec 6).toNat = 0 from rfl, rotateLeft_zero]

theorem rotateLeft_allOnes (n : Nat) : (BitVec.allOnes 64).rotateLeft n = BitVec.allOnes 64 := by
  apply BitVec.eq_of_getLsbD_eq
  intro i hi
  simp only [BitVec.getLsbD_rotateLeft, BitVec.getLsbD_allOnes]
  by_cases hwrap : i < n % 64
  . simp [hwrap, hi]
    omega
  . simp [hwrap, hi]
    omega

theorem clearBetween_allOnes_iff (mb : BitVec 6) : ClearBetween mb (BitVec.allOnes 64) ↔ mb = 0 ∨ mb = 63 := by
  have hmb := mb.isLt
  rw [← storedMb_eq_self_iff, clearBetween_iff]
  constructor
  . intro h
    rw [and_mask63_eq_iff] at h
    have hstored := (storedMb mb).isLt
    apply BitVec.eq_of_toNat_eq
    apply Decidable.by_contra
    intro hne
    -- The mask starts differ, so there is a bit between them.
    have hbit := h (min (storedMb mb).toNat mb.toNat) (by omega) (by omega)
    rw [BitVec.getLsbD_allOnes, decide_eq_false_iff_not] at hbit
    omega
  . intro h
    rw [h]

/--
The word masks as it should exactly if the rotated source has none of the bits between the two mask
starts, for every source that is so for the mask starts 0 and 63 only.
-/
theorem encodeRldicl_exact_iff (ra rs : BitVec 5) (sh mb : BitVec 6) (m : Machine ρ)
    : (RotatesExactly trap ra rs sh mb m ↔ ClearBetween mb ((m.gpr rs).rotateLeft sh.toNat))
        ∧
      (ClearsExactly trap ra rs mb m ↔ ClearBetween mb (m.gpr rs))
        ∧
      ((∀ m', RotatesExactly trap ra rs sh mb m') ↔ mb = 0 ∨ mb = 63) := by
  constructor
  . apply rotatesExactly_iff
  constructor
  . apply clearsExactly_iff
  constructor
  . intro h
    have hones := h { m with gpr := fun _ => BitVec.allOnes 64 }
    rw [rotatesExactly_iff, rotateLeft_allOnes, clearBetween_allOnes_iff] at hones
    exact hones
  . intro h m'
    rw [rotatesExactly_iff, clearBetween_iff, (storedMb_eq_self_iff mb).mpr h]

def onesMachine : Machine Unit := zeroMachine.setGpr 12 (BitVec.allOnes 64)

theorem encodeRldicl_32_onesMachine
    : ¬ RotatesExactly id 12 12 0 32 onesMachine ∧ ¬ ClearsExactly id 12 12 32 onesMachine := by
  have hones : onesMachine.gpr 12 = BitVec.allOnes 64 := rfl
  rw [rotatesExactly_iff, clearsExactly_iff, hones, rotateLeft_allOnes, clearBetween_allOnes_iff]
  decide

end Ppc
end ElfCraft
