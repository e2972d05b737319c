import ElfCraft.Ppc.Lemmas.Decode

/-!
This module contains what the `lis`/`ori`/`clrldi` sequence and the long jump built from it do on a
64 bit processor.
-/

namespace ElfCraft
namespace Ppc

variable {ρ : Type} (trap : Machine ρ → Machine ρ)

namespace Machine

@[simp]
theorem gpr_setGpr (m : Machine ρ) (r r' : BitVec 5) (v : BitVec 64)
    : (m.setGpr r v).gpr r' = if r' = r then v else m.gpr r' := by
  rfl

end Machine

theorem execWords_append (ws vs : List Instruction) (m : Machine ρ)
    : execWords trap (ws ++ vs) m = (execWords trap ws m).bind (execWords trap vs) := by
  induction ws generalizing m with
  | nil => simp [execWords]
  | cons w ws ih =>
    simp only [List.cons_append, execWords]
    cases decode w with
    | none => rfl
    | some i => exact ih (exec trap i m)

-- The sign extension of `addis`, cleared from the mask start on that the ISA reads out of `clrldi`.
def loadedImmediate (value : BitVec 32) : BitVec 64 :=
  value.signExtend 64 &&& mask63 16

theorem setWidth_and_0xFFFF (x : BitVec 32) : (x &&& 0xFFFF#32).setWidth 16 = x.setWidth 16 := by
  apply BitVec.eq_of_toNat_eq
  have hmask : (0xFFFF#32).toNat = 2 ^ 16 - 1 := by decide
  rw [BitVec.toNat_setWidth, BitVec.toNat_setWidth, BitVec.toNat_and, hmask]
  rw [Nat.and_two_pow_sub_one_eq_mod, Nat.mod_mod]

theorem addis_or_ori (value : BitVec 32)
    : ((((value >>> 16) &&& 0xFFFF#32).setWidth 16 ++ 0#16).signExtend 64
        ||| ((value &&& 0xFFFF#32).setWidth 16).setWidth 64)
        =
      value.signExtend 64 := by
  rw [setWidth_and_0xFFFF, setWidth_and_0xFFFF]
  have hmsb : ((value >>> 16).setWidth 16).msb = value.msb := by
    simp [BitVec.msb_eq_getLsbD_last]
  apply BitVec.eq_of_getLsbD_eq
  intro i hi
  simp only [BitVec.getLsbD_or, BitVec.getLsbD_signExtend, BitVec.getLsbD_append, BitVec.msb_append,
    BitVec.getLsbD_setWidth, BitVec.getLsbD_ushiftRight, BitVec.getLsbD_zero, hi, hmsb]
  rcases Nat.lt_or_ge i 16 with hlow | hlow
  . simp [hlow, show i < 32 by omega]
  . rcases Nat.lt_or_ge i 32 with hmid | hmid
    . simp [hmid, show ¬ (i < 16) by omega, show i - 16 < 16 by omega,
        show 16 + (i - 16) = i by omega]
    . simp [show ¬ (i < 32) by omega, show ¬ (i < 16) by omega]

theorem rotateLeft_zero (x : BitVec 64) : x.rotateLeft 0 = x := by
  rw [BitVec.rotateLeft_def]
  simp only [Nat.zero_mod, BitVec.shiftLeft_zero, Nat.sub_zero]
  rw [BitVec.ushiftRight_eq_zero (by omega), BitVec.or_zero]

theorem execWords_loadImmediate32 (reg : BitVec 5) (value : BitVec 32) (m : Machine ρ)
    : execWords trap (loadImmediate32 (reg.setWidth 32) value) m
        =
      some (m.setGpr reg (loadedImmediate value)).next.next.next := by
  have hsh : (0#6).toNat = 0 := rfl
  simp only [loadImmediate32, execWords, decode_encodeLis, decode_encodeOri, decode_encodeClrldi_32,
    exec]
  simp only [Machine.base, Machine.next, ↓reduceIte, Machine.setGpr, BitVec.ofNat_eq_ofNat,
    BitVec.zero_add, addis_or_ori, hsh, rotateLeft_zero, loadedImmediate, Option.some.injEq,
    Machine.mk.injEq, and_self, and_true]
  funext r
  split <;> rfl

theorem execWords_makeAbsoluteJump (scratch : BitVec 5) (target : BitVec 32) (m : Machine ρ)
    : execWords trap (makeAbsoluteJump target (scratch.setWidth 32)) m
        =
      some { m.setGpr scratch (loadedImmediate target) with
        ctr := loadedImmediate target, cia := loadedImmediate target &&& ~~~3 } := by
  unfold makeAbsoluteJump
  rw [execWords_append, execWords_loadImmediate32]
  simp only [Option.bind_some, execWords, decode_encodeMtctr, decode_encodeBctr, exec]
  simp [Machine.branch, Machine.next, condOk, Machine.setGpr]

theorem getLsbD_loadedImmediate (value : BitVec 32) (i : Nat)
    : (loadedImmediate value).getLsbD i
        =
      (decide (i < 48) && if i < 32 then value.getLsbD i else value.msb) := by
  unfold loadedImmediate mask63
  have h16 : (16 : BitVec 6).toNat = 16 := by decide
  simp only [BitVec.getLsbD_and, BitVec.getLsbD_signExtend, BitVec.getLsbD_ushiftRight,
    BitVec.getLsbD_allOnes, h16]
  rw [Bool.and_comm]
  by_cases hi : i < 48
  . simp [hi, show i < 64 by omega, show 16 + i < 64 by omega]
  . simp [hi, show ¬ (16 + i < 64) by omega]

theorem lt_0x80000000_iff (value : BitVec 32) : value < 0x80000000#32 ↔ value.msb = false := by
  rw [BitVec.msb_eq_false_iff_two_mul_lt, BitVec.lt_def, BitVec.toNat_ofNat]
  omega

theorem loadedImmediate_of_lt (value : BitVec 32) (h : value < 0x80000000#32)
    : loadedImmediate value = value.setWidth 64 := by
  rw [lt_0x80000000_iff] at h
  apply BitVec.eq_of_getLsbD_eq
  intro i hi
  rw [getLsbD_loadedImmediate, BitVec.getLsbD_setWidth, h]
  split
  . simp [hi, show i < 48 by omega]
  . rw [BitVec.getLsbD_of_ge value i (by omega), Bool.and_false, Bool.and_false]

-- `clrldi` leaves the bits 32 to 47 alone, they are copies of the sign.
theorem getLsbD_32_loadedImmediate (value : BitVec 32) (h : ¬ (value < 0x80000000#32))
    : (loadedImmediate value).getLsbD 32 = true := by
  rw [lt_0x80000000_iff, Bool.not_eq_false] at h
  rw [getLsbD_loadedImmediate, h]
  rfl

theorem getLsbD_32_setWidth (value : BitVec 32) : (value.setWidth 64).getLsbD 32 = false := by
  rw [BitVec.getLsbD_setWidth, BitVec.getLsbD_of_ge value 32 (by omega), Bool.and_false]

theorem loadedImmediate_eq_iff (value : BitVec 32)
    : loadedImmediate value = value.setWidth 64 ↔ value < 0x80000000#32 := by
  constructor
  . intro h
    apply Decidable.by_contra
    intro hge
    have hbit := getLsbD_32_loadedImmediate value hge
    rw [h, getLsbD_32_setWidth] at hbit
    contradiction
  . apply loadedImmediate_of_lt

theorem and_not_3 (x : BitVec 64) (h : x.toNat % 4 = 0) : x &&& ~~~3 = x := by
  have hlow : x.extractLsb' 0 2 = 0#2 := by
    apply BitVec.eq_of_toNat_eq
    simpa using h
  apply BitVec.eq_of_getLsbD_eq
  intro i hi
  have hnot : (~~~(3 : BitVec 64)).getLsbD i = decide (2 ≤ i) := by
    revert i
    decide
  rw [BitVec.getLsbD_and, hnot]
  by_cases hi2 : i < 2
  . have hbit := congrArg (fun x => x.getLsbD i) hlow
    simp only [BitVec.getLsbD_extractLsb', hi2, Nat.zero_add, BitVec.getLsbD_zero, decide_true,
      Bool.true_and] at hbit
    simp [hbit]
  . simp [show 2 ≤ i by omega]

theorem setWidth_and_not_3 (target : BitVec 32) (h : target.toNat % 4 = 0)
    : target.setWidth 64 &&& ~~~3 = target.setWidth 64 := by
  apply and_not_3
  rw [BitVec.toNat_setWidth]
  omega

theorem loadedImmediate_and_not_3_eq_iff (target : BitVec 32) (h : target.toNat % 4 = 0)
    : loadedImmediate target &&& ~~~3 = target.setWidth 64 ↔ target < 0x80000000#32 := by
  constructor
  . intro heq
    apply Decidable.by_contra
    intro hge
    have hbit : (loadedImmediate target &&& ~~~3).getLsbD 32 = true := by
      rw [BitVec.getLsbD_and, getLsbD_32_loadedImmediate target hge]
      decide
    rw [heq, getLsbD_32_setWidth] at hbit
    contradiction
  . intro hlt
    rw [loadedImmediate_of_lt target hlt, setWidth_and_not_3 target h]

/--
`m'` is `m` up to the register `reg`, CTR and the instruction address.
-/
structure OnlyTouches (reg : BitVec 5) (m m' : Machine ρ) : Prop where
  gpr : ∀ (r : BitVec 5), r ≠ reg → m'.gpr r = m.gpr r
  lr : m'.lr = m.lr
  cr : m'.cr = m.cr
  mem : m'.mem = m.mem
  rest : m'.rest = m.rest

def LoadsExactly (reg : BitVec 5) (value : BitVec 32) (m : Machine ρ) : Prop :=
  ∃ m', execWords trap (loadImmediate32 (reg.setWidth 32) value) m = some m'
    ∧ m'.gpr reg = value.setWidth 64 ∧ OnlyTouches reg m m' ∧ m'.ctr = m.ctr

def JumpsExactly (target : BitVec 32) (scratch : BitVec 5) (m : Machine ρ) : Prop :=
  ∃ m', execWords trap (makeAbsoluteJump target (scratch.setWidth 32)) m = some m'
    ∧ m'.cia = target.setWidth 64 ∧ OnlyTouches scratch m m'

theorem OnlyTouches.setGpr (reg : BitVec 5) (v ctr cia : BitVec 64) (m : Machine ρ)
    : OnlyTouches reg m { m.setGpr reg v with ctr := ctr, cia := cia } := by
  constructor
  . intro r hr
    simp [Machine.setGpr, hr]
  all_goals rfl

theorem LoadsExactly_iff (reg : BitVec 5) (value : BitVec 32) (m : Machine ρ)
    : LoadsExactly trap reg value m ↔ value < 0x80000000#32 := by
  unfold LoadsExactly
  rw [execWords_loadImmediate32, ← loadedImmediate_eq_iff]
  constructor
  . rintro ⟨m', hm', hreg, -, -⟩
    rw [← Option.some.inj hm'] at hreg
    simpa [Machine.next] using hreg
  . intro h
    refine ⟨_, rfl, ?_, OnlyTouches.setGpr reg _ m.ctr _ m, rfl⟩
    simpa [Machine.next] using h

theorem JumpsExactly_iff (target : BitVec 32) (scratch : BitVec 5) (m : Machine ρ)
    (h : target.toNat % 4 = 0)
    : JumpsExactly trap target scratch m ↔ target < 0x80000000#32 := by
  unfold JumpsExactly
  rw [execWords_makeAbsoluteJump, ← loadedImmediate_and_not_3_eq_iff target h]
  constructor
  . rintro ⟨m', hm', hcia, -⟩
    rw [← Option.some.inj hm'] at hcia
    exact hcia
  . intro hcia
    exact ⟨_, rfl, hcia, OnlyTouches.setGpr scratch _ _ _ m⟩

/--
The sequence and the jump do what they are for exactly when bit 31 of the value is clear.
-/
theorem loadImmediate32_makeAbsoluteJump_exact_iff (reg : BitVec 5) (value : BitVec 32)
    (m : Machine ρ)
    : (LoadsExactly trap reg value m ↔ value < 0x80000000#32)
        ∧
      (value.toNat % 4 = 0 → (JumpsExactly trap value reg m ↔ value < 0x80000000#32)) := by
  constructor
  . apply LoadsExactly_iff
  . apply JumpsExactly_iff

def zeroMachine : Machine Unit :=
  { gpr := fun _ => 0, lr := 0, ctr := 0, cr := 0, mem := fun _ => 0, cia := 0, rest := () }

theorem loadImmediate32_makeAbsoluteJump_0x10000000
    : LoadsExactly id 12 0x10000000 zeroMachine ∧ JumpsExactly id 0x10000000 12 zeroMachine := by
  have h := loadImmediate32_makeAbsoluteJump_exact_iff id 12 0x10000000 zeroMachine
  constructor
  . exact h.left.mpr (by decide)
  . exact (h.right (by decide)).mpr (by decide)

theorem loadImmediate32_makeAbsoluteJump_0x80010000
    : ¬ LoadsExactly id 12 0x80010000 zeroMachine ∧ ¬ JumpsExactly id 0x80010000 12 zeroMachine := by
  constructor
  . rw [LoadsExactly_iff]
    decide
  . rw [JumpsExactly_iff _ _ _ _ (by decide)]
    decide

end Ppc
end ElfCraft
