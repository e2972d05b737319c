import ElfCraft.Ppc.Lemmas.Moved
import ElfCraft.Ps3patch.Trampoline

/-!
This module contains the relocation of the displaced instructions: the relative branches among them are
re-encoded such that they keep their targets, all the other words are copied.
-/

namespace ElfCraft
namespace Ps3patch

open Binary Elf Ppc

-- The address of the `i`-th word from `base` on.
def wordAddr (base : BitVec 32) (i : Nat) : BitVec 32 := base + BitVec.ofNat 32 (i * 4)

/--
The displacement that a relative branch needs at its new address is one that its form has room for.
-/
def Relocatable (w : Instruction) (originalAddr newAddr : BitVec 32) : Prop :=
  (classify w).kind = .DirectRelative →
    Fits (classify w).fieldWidth (relocatedDisp (classify w) originalAddr newAddr)

instance (w : Instruction) (originalAddr newAddr : BitVec 32)
    : Decidable (Relocatable w originalAddr newAddr) :=
  inferInstanceAs (Decidable (_ → _))

def relocatedWord (w : Instruction) (originalAddr newAddr : BitVec 32) : Instruction :=
  if (classify w).kind = .DirectRelative then
    (classify w).encoded (BitVec.ofInt 32 (relocatedDisp (classify w) originalAddr newAddr))
  else
    w

namespace relocateDisplacedInstructions

variable (originalBase newBase : BitVec 32)

theorem go_cons_of_relocatable (i : Nat) (w : Instruction) (rest : List Instruction)
    (h : Relocatable w (wordAddr originalBase i) (wordAddr newBase i))
    : go originalBase newBase i (w :: rest)
        =
      (go originalBase newBase (i + 1) rest).map
        (relocatedWord w (wordAddr originalBase i) (wordAddr newBase i) :: ·) := by
  simp only [go]
  rw [← wordAddr, ← wordAddr]
  unfold relocatedWord
  split
  . next hkind =>
    rw [(relocateBranch_eq_some_iff _ _ _ _ hkind).mpr ⟨h hkind, rfl⟩]
  . rfl

theorem go_cons_of_not_relocatable (i : Nat) (w : Instruction) (rest : List Instruction)
    (h : ¬ Relocatable w (wordAddr originalBase i) (wordAddr newBase i))
    : ∃ e, go originalBase newBase i (w :: rest) = .error e ∧ e.code = .RelocationFailed := by
  unfold Relocatable at h
  rw [Classical.not_imp] at h
  have hnone : relocateBranch (classify w) (wordAddr originalBase i) (wordAddr newBase i) = none := by
    rw [Option.eq_none_iff_forall_ne_some]
    intro w' hw'
    rw [relocateBranch_eq_some_iff _ _ _ _ h.left] at hw'
    exact h.right hw'.left
  simp only [go]
  rw [← wordAddr, ← wordAddr, if_pos h.left, hnone]
  exact ⟨_, rfl, rfl⟩

theorem go_eq_ok_iff (i : Nat) (ws out : List Instruction)
    : go originalBase newBase i ws = .ok out
        ↔
      (∀ k w, ws[k]? = some w →
        Relocatable w (wordAddr originalBase (i + k)) (wordAddr newBase (i + k)))
        ∧ out = ws.mapIdx fun k w =>
          relocatedWord w (wordAddr originalBase (i + k)) (wordAddr newBase (i + k)) := by
  induction ws generalizing i out with
  | nil =>
    simp only [go, Except.ok.injEq, List.mapIdx_nil, List.getElem?_nil, reduceCtorEq, false_implies,
      implies_true, true_and]
    exact eq_comm
  | cons w rest ih =>
    have hstep (k : Nat) : i + 1 + k = i + (k + 1) := by omega
    have hrest := ih (i + 1)
    simp only [hstep] at hrest
    by_cases hw : Relocatable w (wordAddr originalBase i) (wordAddr newBase i)
    . rw [go_cons_of_relocatable _ _ _ _ _ hw, List.mapIdx_cons]
      constructor
      . intro hok
        cases hgo : go originalBase newBase (i + 1) rest with
        | error e =>
          rw [hgo] at hok
          contradiction
        | ok ws =>
          obtain ⟨hall, hws⟩ := (hrest ws).mp hgo
          rw [hgo, Except.map, Except.ok.injEq] at hok
          constructor
          . intro k w' hk
            cases k with
            | zero =>
              rw [List.getElem?_cons_zero, Option.some.injEq] at hk
              rw [← hk]
              exact hw
            | succ k => exact hall k w' hk
          . rw [← hok, hws]
            rfl
      . rintro ⟨hall, hout⟩
        rw [(hrest _).mpr ⟨fun k w' hk => hall (k + 1) w' hk, rfl⟩, hout]
        rfl
    . obtain ⟨e, he, -⟩ := go_cons_of_not_relocatable _ _ _ _ rest hw
      rw [he]
      simp only [reduceCtorEq, false_iff, not_and]
      intro hall
      exact absurd (hall 0 w rfl) hw

theorem code_of_go_eq_error (i : Nat) (ws : List Instruction) (e : Error)
    (h : go originalBase newBase i ws = .error e)
    : e.code = .RelocationFailed := by
  induction ws generalizing i e with
  | nil => contradiction
  | cons w rest ih =>
    by_cases hw : Relocatable w (wordAddr originalBase i) (wordAddr newBase i)
    . rw [go_cons_of_relocatable _ _ _ _ _ hw] at h
      cases hrest : go originalBase newBase (i + 1) rest with
      | error e' =>
        rw [hrest, Except.map, Except.error.injEq] at h
        rw [← h]
        exact ih (i + 1) e' hrest
      | ok ws =>
        rw [hrest] at h
        contradiction
    . obtain ⟨e', he', hcode⟩ := go_cons_of_not_relocatable _ _ _ _ rest hw
      rw [he', Except.error.injEq] at h
      rw [← h]
      exact hcode

end relocateDisplacedInstructions

section Spec

variable (originalBase newBase : BitVec 32)

theorem relocateDisplacedInstructions_eq_ok_iff (original relocated : List Instruction)
    : relocateDisplacedInstructions original originalBase newBase = .ok relocated
        ↔
      (∀ i w, original[i]? = some w →
        Relocatable w (wordAddr originalBase i) (wordAddr newBase i))
        ∧ relocated = original.mapIdx fun i w =>
          relocatedWord w (wordAddr originalBase i) (wordAddr newBase i) := by
  have h := relocateDisplacedInstructions.go_eq_ok_iff originalBase newBase 0 original relocated
  simp only [Nat.zero_add] at h
  exact h

end Spec

/--
`w'` at `newAddr` is the same relative branch as `w` at `originalAddr`.
-/
structure KeepsTarget (w w' : Instruction) (originalAddr newAddr : BitVec 32) : Prop where
  kind : (classify w').kind = .DirectRelative
  form : (classify w').isConditionalForm = (classify w).isConditionalForm
  bo : (classify w').bo = (classify w).bo
  bi : (classify w').bi = (classify w).bi
  link : (classify w').link = (classify w).link
  target : newAddr + (classify w').displacement = originalAddr + (classify w).displacement

theorem relocatedWord_of_not_relative (w : Instruction) (originalAddr newAddr : BitVec 32)
    (hkind : (classify w).kind ≠ .DirectRelative)
    : relocatedWord w originalAddr newAddr = w := by
  unfold relocatedWord
  rw [if_neg hkind]

theorem keepsTarget_relocatedWord (w : Instruction) (originalAddr newAddr : BitVec 32)
    (hkind : (classify w).kind = .DirectRelative) (h : Relocatable w originalAddr newAddr)
    : KeepsTarget w (relocatedWord w originalAddr newAddr) originalAddr newAddr := by
  have hclassify := classify_encoded w _ hkind (h hkind)
  unfold relocatedWord
  rw [if_pos hkind]
  constructor
  . rw [hclassify]
    exact hkind
  . rw [hclassify]
  . rw [hclassify]
  . rw [hclassify]
  . rw [hclassify]
  . rw [hclassify]
    apply add_ofInt_relocatedDisp

/--
The relocation succeeds exactly when every relative branch fits its form at the new address. It copies all
the other words and the branches keep everything but their displacements.
-/
theorem relocateDisplacedInstructions_spec (original : List Instruction) (originalBase newBase : BitVec 32)
    : ((∃ relocated, relocateDisplacedInstructions original originalBase newBase = .ok relocated)
          ↔
        ∀ i w, original[i]? = some w → (classify w).kind = .DirectRelative →
          Fits (classify w).fieldWidth
            (((wordAddr originalBase i + (classify w).displacement).toNat : Int)
              - ((wordAddr newBase i).toNat : Int)))
        ∧
      (∀ e, relocateDisplacedInstructions original originalBase newBase = .error e →
        e.code = .RelocationFailed)
        ∧
      ∀ relocated, relocateDisplacedInstructions original originalBase newBase = .ok relocated →
        relocated.length = original.length
          ∧ ∀ i w, original[i]? = some w → ∃ w', relocated[i]? = some w'
            ∧ ((classify w).kind ≠ .DirectRelative → w' = w)
            ∧ ((classify w).kind = .DirectRelative →
              KeepsTarget w w' (wordAddr originalBase i) (wordAddr newBase i)) := by
  refine ⟨?_, ?_, ?_⟩
  . simp only [relocateDisplacedInstructions_eq_ok_iff, exists_and_left, exists_eq, and_true]
    rfl
  . intro e he
    apply relocateDisplacedInstructions.code_of_go_eq_error originalBase newBase 0 original e he
  . intro relocated hok
    rw [relocateDisplacedInstructions_eq_ok_iff] at hok
    obtain ⟨hall, hout⟩ := hok
    rw [hout]
    refine ⟨List.length_mapIdx, ?_⟩
    intro i w hw
    rw [List.getElem?_mapIdx, hw]
    refine ⟨_, rfl, ?_, ?_⟩
    . intro hkind
      apply relocatedWord_of_not_relative w _ _ hkind
    . intro hkind
      apply keepsTarget_relocatedWord w _ _ hkind (hall i w hw)

/-
What the relocated words do.
-/

/--
From every state `w'` at `newAddr` branches like `w` at `originalAddr` and leaves the same CTR and LR.
-/
def SameEffect (w w' : Instruction) (originalAddr newAddr : BitVec 32) : Prop :=
  ∀ (ρ : Type) (trap : Machine ρ → Machine ρ) (other : Instruction → Machine ρ → Machine ρ),
    AddressIndependent trap → (∀ w, AddressIndependent (other w)) →
    ∀ m, SameBranch trap other w w' originalAddr newAddr m

-- The target of a relative branch is an address of 32 bits as it stands, without wrapping around.
def StaysInside (branch : DecodedBranch) (originalAddr : BitVec 32) : Prop :=
  0 ≤ (originalAddr.toNat : Int) + branch.displacement.toInt
    ∧ (originalAddr.toNat : Int) + branch.displacement.toInt < 2 ^ 32

theorem addressIndependent_next {ρ : Type} : AddressIndependent (Machine.next (ρ := ρ)) := by
  intro m addr
  rfl

section Branches

variable {w w' : Instruction} {i i' : Insn} (hw : decode w = some i) (hw' : decode w' = some i')
variable (hi : i.isBranch = true) (hi' : i'.isBranch = true) (hlink : i'.link = i.link)
variable (hctr : ∀ ctr, i'.ctrAfter ctr = i.ctrAfter ctr)
variable (htaken : ∀ (ρ : Type) (m : Machine ρ) addr addr',
  i'.taken { m with cia := addr' } = i.taken { m with cia := addr })
include hw hw' hi hi' hlink hctr htaken

theorem sameEffect_iff (originalAddr newAddr : BitVec 32)
    : SameEffect w w' originalAddr newAddr
        ↔
      (∀ (ρ : Type) (m : Machine ρ), i.taken (m.placed originalAddr) = true →
        i'.target (m.placed newAddr) = i.target (m.placed originalAddr))
        ∧ (i.link = true → originalAddr = newAddr) := by
  constructor
  . intro h
    constructor
    . intro ρ m ht
      have hsame := h ρ Machine.next (fun _ => Machine.next) addressIndependent_next
        (fun _ => addressIndependent_next) m
      rw [sameBranch_iff _ _ hw hw' hi hi' hlink hctr (htaken ρ)] at hsame
      exact hsame.left ht
    . have hsame := h Unit Machine.next (fun _ => Machine.next) addressIndependent_next
        (fun _ => addressIndependent_next) (takenState 0)
      rw [sameBranch_iff _ _ hw hw' hi hi' hlink hctr (htaken Unit)] at hsame
      exact hsame.right
  . rintro ⟨htarget, hlr⟩ ρ trap other _ _ m
    rw [sameBranch_iff _ _ hw hw' hi hi' hlink hctr (htaken ρ)]
    exact ⟨htarget ρ m, hlr⟩

/--
A state in which the branch is taken always exists, so the targets have to be the same.
-/
theorem sameEffect_relative_iff (t t' : BitVec 64)
    (htarget : ∀ (ρ : Type) (m : Machine ρ), i.target m = m.cia + t)
    (htarget' : ∀ (ρ : Type) (m : Machine ρ), i'.target m = m.cia + t') (originalAddr newAddr : BitVec 32)
    : SameEffect w w' originalAddr newAddr
        ↔
      newAddr.setWidth 64 + t' = originalAddr.setWidth 64 + t
        ∧ (i.link = true → originalAddr = newAddr) := by
  rw [sameEffect_iff hw hw' hi hi' hlink hctr htaken]
  simp only [htarget, htarget']
  constructor
  . rintro ⟨hall, hlr⟩
    obtain ⟨m, hm⟩ := exists_taken i hi
    exact ⟨hall Unit m (hm _), hlr⟩
  . rintro ⟨heq, hlr⟩
    exact ⟨fun _ _ _ => heq, hlr⟩

end Branches

theorem sameEffect_self_iff {w : Instruction} {i : Insn} (hw : decode w = some i) (hi : i.isBranch = true)
    (hkind : i.decoded.kind ≠ .DirectRelative) (originalAddr newAddr : BitVec 32)
    : SameEffect w w originalAddr newAddr ↔ (i.link = true → originalAddr = newAddr) := by
  have htaken (ρ : Type) (m : Machine ρ) (addr addr' : BitVec 64)
      : i.taken { m with cia := addr' } = i.taken { m with cia := addr } := by
    cases i <;> rfl
  have htarget (ρ : Type) (m : Machine ρ)
      : i.target (m.placed newAddr) = i.target (m.placed originalAddr) := by
    cases i with
    | b li aa lk =>
      cases aa with
      | false => contradiction
      | true => rfl
    | bc bo bi bd aa lk =>
      cases aa with
      | false => contradiction
      | true => rfl
    | bclr bo bi lk => rfl
    | bcctr bo bi lk => rfl
    | _ => contradiction
  rw [sameEffect_iff hw hw hi hi rfl (fun _ => rfl) htaken]
  constructor
  . intro h
    exact h.right
  . intro h
    exact ⟨fun ρ m _ => htarget ρ m, h⟩

theorem setWidth_add_eq_iff (addr disp : BitVec 32)
    : (addr + disp).setWidth 64 = addr.setWidth 64 + BitVec.ofInt 64 disp.toInt
        ↔
      0 ≤ (addr.toNat : Int) + disp.toInt ∧ (addr.toNat : Int) + disp.toInt < 2 ^ 32 := by
  have haddr := addr.isLt
  have hdisp := disp.isLt
  have hint := BitVec.toInt_eq_toNat_cond disp
  rw [← BitVec.toNat_inj, BitVec.toNat_add, BitVec.toNat_setWidth, BitVec.toNat_setWidth, BitVec.toNat_add,
    BitVec.toNat_ofInt]
  split at hint
  . omega
  . omega

/--
The fixed displacement leads to the target that the original one has after cutting it to 32 bits.
-/
theorem relocated_target_eq_iff (branch : DecodedBranch) (originalAddr newAddr : BitVec 32)
    : newAddr.setWidth 64 + BitVec.ofInt 64 (relocatedDisp branch originalAddr newAddr)
          = originalAddr.setWidth 64 + BitVec.ofInt 64 branch.displacement.toInt
        ↔
      StaysInside branch originalAddr := by
  unfold relocatedDisp
  rw [setWidth_add_ofInt_sub]
  apply setWidth_add_eq_iff

theorem sameEffect_of_not_branch (w : Instruction) (h : ∀ i, decode w = some i → i.isBranch = false)
    (originalAddr newAddr : BitVec 32)
    : SameEffect w w originalAddr newAddr := by
  intro ρ trap other htrap hother m
  apply sameBranch_of_addressIndependent
  . unfold execWord
    split
    . next i hi => exact addressIndependent_exec trap htrap i (h i hi)
    . exact hother w
  . intro m
    unfold taken
    split
    . next i hi =>
      have hnot := h i hi
      cases i <;> first | rfl | contradiction
    . rfl

theorem classify_of_not_branch (w : Instruction) (h : ∀ i, decode w = some i → i.isBranch = false)
    : classify w = {} := by
  cases hdecode : decode w with
  | none =>
    rw [classify_eq_decoded, hdecode]
    rfl
  | some i =>
    rw [classify_of_decode hdecode, decoded_of_not_branch i (h i hdecode)]

theorem signExtend_eq_ofInt {n : Nat} (x : BitVec n) (hn : n ≤ 32)
    : x.signExtend 64 = BitVec.ofInt 64 (x.signExtend 32).toInt := by
  rw [BitVec.toInt_signExtend_of_le hn]
  rfl

theorem sameEffect_relocatedWord_of_relative (w : Instruction) (originalAddr newAddr : BitVec 32)
    (hkind : (classify w).kind = .DirectRelative) (h : Relocatable w originalAddr newAddr)
    : SameEffect w (relocatedWord w originalAddr newAddr) originalAddr newAddr
        ↔
      StaysInside (classify w) originalAddr ∧ ((classify w).link = true → originalAddr = newAddr) := by
  have hfits := h hkind
  rw [← relocated_target_eq_iff _ originalAddr newAddr]
  unfold relocatedWord
  rw [if_pos hkind]
  rcases decode_of_relative w hkind with ⟨li, lk, hdecode⟩ | ⟨bo, bi, bd, lk, hdecode⟩
  . rw [classify_of_decode hdecode] at *
    have hli : Fits 26 (relocatedDisp (Insn.b li false lk).decoded originalAddr newAddr) := hfits
    have hlong := signExtend_eq_ofInt (li ++ 0#2) (by omega)
    have hlong' := hli.signExtend_append_zero (W := 64) 24 rfl (by omega) (by omega)
    apply sameEffect_relative_iff hdecode (decode_iForm _ false lk) rfl rfl rfl (fun _ => rfl)
      (fun _ _ _ _ => rfl)
    . intro ρ m
      exact congrArg (m.cia + ·) hlong
    . intro ρ m
      exact congrArg (m.cia + ·) hlong'
  . rw [classify_of_decode hdecode] at *
    have hbd : Fits 16 (relocatedDisp (Insn.bc bo bi bd false lk).decoded originalAddr newAddr) := hfits
    have hlong := signExtend_eq_ofInt (bd ++ 0#2) (by omega)
    have hlong' := hbd.signExtend_append_zero (W := 64) 14 rfl (by omega) (by omega)
    have hword := decode_bForm (bo.setWidth 32) (bi.setWidth 32) (BitVec.ofInt 32
      (relocatedDisp (Insn.bc bo bi bd false lk).decoded originalAddr newAddr)) false lk
    simp only [extractLsb'_setWidth_self _ (by omega : 5 ≤ 32)] at hword
    apply sameEffect_relative_iff hdecode hword rfl rfl rfl (fun _ => rfl) (fun _ _ _ _ => rfl)
    . intro ρ m
      exact congrArg (m.cia + ·) hlong
    . intro ρ m
      exact congrArg (m.cia + ·) hlong'

/--
A relocated word does what it did exactly if it does not link, or stays where it is, and its target is not
cut to 32 bits.
-/
theorem sameEffect_relocatedWord_iff (w : Instruction) (originalAddr newAddr : BitVec 32)
    (h : Relocatable w originalAddr newAddr)
    : SameEffect w (relocatedWord w originalAddr newAddr) originalAddr newAddr
        ↔
      ((classify w).link = true → originalAddr = newAddr)
        ∧ ((classify w).kind = .DirectRelative → StaysInside (classify w) originalAddr) := by
  by_cases hkind : (classify w).kind = .DirectRelative
  . rw [sameEffect_relocatedWord_of_relative w _ _ hkind h, and_comm]
    simp only [hkind, true_implies]
  . rw [relocatedWord_of_not_relative w _ _ hkind]
    simp only [hkind, false_implies, and_true]
    by_cases hbranch : ∃ i, decode w = some i ∧ i.isBranch = true
    . obtain ⟨i, hdecode, hi⟩ := hbranch
      rw [classify_of_decode hdecode] at hkind ⊢
      rw [sameEffect_self_iff hdecode hi hkind, link_decoded]
    . have hnot (i : Insn) (hdecode : decode w = some i) : i.isBranch = false := by
        apply eq_false_of_ne_true
        intro hi
        exact hbranch ⟨i, hdecode, hi⟩
      rw [classify_of_not_branch w hnot]
      constructor
      . intro _ hlink
        contradiction
      . intro _
        apply sameEffect_of_not_branch w hnot

theorem wordAddr_inj (base base' : BitVec 32) (i : Nat)
    : wordAddr base i = wordAddr base' i ↔ base = base' := by
  unfold wordAddr
  exact BitVec.add_left_inj _

/--
A word of a successful relocation does what it did exactly if it does not link, or stays where it is, and
its target is not cut to 32 bits.
-/
theorem relocateDisplacedInstructions_effect_iff (original relocated : List Instruction)
    (originalBase newBase : BitVec 32)
    (h : relocateDisplacedInstructions original originalBase newBase = .ok relocated)
    (i : Nat) (w w' : Instruction) (hw : original[i]? = some w) (hw' : relocated[i]? = some w')
    : SameEffect w w' (wordAddr originalBase i) (wordAddr newBase i)
        ↔
      ((classify w).link = true → originalBase = newBase)
        ∧ ((classify w).kind = .DirectRelative →
          StaysInside (classify w) (wordAddr originalBase i)) := by
  rw [relocateDisplacedInstructions_eq_ok_iff] at h
  obtain ⟨hall, hout⟩ := h
  rw [hout, List.getElem?_mapIdx, hw, Option.map_some, Option.some.injEq] at hw'
  rw [← hw', sameEffect_relocatedWord_iff w _ _ (hall i w hw), wordAddr_inj]

-- `nop` and `b .+0x100`
theorem relocateDisplacedInstructions_effect_b
    : SameEffect 0x48000100 0x4BFF0100 0x10004 0x20004 := by
  have hok : relocateDisplacedInstructions [0x60000000, 0x48000100] 0x10000 0x20000
      = .ok [0x60000000, 0x4BFF0100] := by
    decide +kernel
  apply (relocateDisplacedInstructions_effect_iff _ _ _ _ hok 1 0x48000100 0x4BFF0100 rfl rfl).mpr
  constructor
  . decide
  . intro _
    constructor
    . decide
    . decide

/--
`bl .+0x100` and `bctrl` leave another return address, whether they are re-encoded or copied.
-/
theorem relocateDisplacedInstructions_effect_bl
    : relocateDisplacedInstructions [0x48000101, 0x4E800421] 0x10000 0x20000
          = .ok [0x4BFF0101, 0x4E800421]
        ∧ ¬ SameEffect 0x48000101 0x4BFF0101 0x10000 0x20000
        ∧ ¬ SameEffect 0x4E800421 0x4E800421 0x10004 0x20004 := by
  refine ⟨?_, ?_, ?_⟩
  . decide +kernel
  . intro h
    have hlr := (h Unit Machine.next (fun _ => Machine.next) addressIndependent_next
      (fun _ => addressIndependent_next) (takenState 0)).lr
    revert hlr
    decide
  . intro h
    have hlr := (h Unit Machine.next (fun _ => Machine.next) addressIndependent_next
      (fun _ => addressIndependent_next) (takenState 0)).lr
    revert hlr
    decide

end Ps3patch
end ElfCraft
