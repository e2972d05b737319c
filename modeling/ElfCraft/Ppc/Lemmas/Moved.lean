import ElfCraft.Ppc.Lemmas.Block

/-!
This module contains what an instruction does at another address: only branches depend on where they
are, in their target if it is relative and in what they leave in LR.
-/

namespace ElfCraft
namespace Ppc

open Binary

/-
The parts of a branch.
-/

namespace Insn

variable {ρ : Type}

def link (i : Insn) : Bool :=
  match i with
  | .b _ _ lk => lk
  | .bc _ _ _ _ lk => lk
  | .bclr _ _ lk => lk
  | .bcctr _ _ lk => lk
  | _ => false

def ctrAfter (i : Insn) (ctr : BitVec 64) : BitVec 64 :=
  match i with
  | .bc bo _ _ _ _ => if bo.getLsbD 2 then ctr else ctr - 1
  | .bclr bo _ _ => if bo.getLsbD 2 then ctr else ctr - 1
  | _ => ctr

def taken (i : Insn) (m : Machine ρ) : Bool :=
  match i with
  | .b _ _ _ => true
  | .bc bo bi _ _ _ => ctrOk bo (i.ctrAfter m.ctr) && condOk bo bi m.cr
  | .bclr bo bi _ => ctrOk bo (i.ctrAfter m.ctr) && condOk bo bi m.cr
  | .bcctr bo bi _ => condOk bo bi m.cr
  | _ => false

def target (i : Insn) (m : Machine ρ) : BitVec 64 :=
  match i with
  | .b li aa _ => if aa then (li ++ 0#2).signExtend 64 else m.cia + (li ++ 0#2).signExtend 64
  | .bc _ _ bd aa _ => if aa then (bd ++ 0#2).signExtend 64 else m.cia + (bd ++ 0#2).signExtend 64
  | .bclr _ _ _ => m.lr &&& ~~~3
  | .bcctr _ _ _ => m.ctr &&& ~~~3
  | _ => m.cia + 4

end Insn

section Exec

variable {ρ : Type} (trap : Machine ρ → Machine ρ)

theorem exec_branch (i : Insn) (h : i.isBranch = true) (m : Machine ρ)
    : exec trap i m = { m with ctr := i.ctrAfter m.ctr }.branch (i.taken m) (i.target m) i.link := by
  cases i with
  | b li aa lk => rfl
  | bc bo bi bd aa lk => rfl
  | bclr bo bi lk => rfl
  | bcctr bo bi lk => rfl
  | _ => contradiction

def AddressIndependent (f : Machine ρ → Machine ρ) : Prop :=
  ∀ (m : Machine ρ) (addr : BitVec 64), f { m with cia := addr } = { f m with cia := addr + 4 }

theorem addressIndependent_exec (htrap : AddressIndependent trap) (i : Insn) (h : i.isBranch = false)
    : AddressIndependent (exec trap i) := by
  intro m addr
  cases i with
  | mtspr rs spr => cases spr <;> rfl
  | mfspr rt spr => cases spr <;> rfl
  | b _ _ _ => contradiction
  | bc _ _ _ _ _ => contradiction
  | bclr _ _ _ => contradiction
  | bcctr _ _ _ => contradiction
  | sc => exact htrap m addr
  | _ => rfl

end Exec

theorem link_decoded (i : Insn) : i.decoded.link = i.link := by
  cases i with
  | b li aa lk => cases aa <;> rfl
  | bc bo bi bd aa lk => cases aa <;> rfl
  | _ => rfl

theorem decoded_of_not_branch (i : Insn) (h : i.isBranch = false) : i.decoded = {} := by
  cases i with
  | b _ _ _ => contradiction
  | bc _ _ _ _ _ => contradiction
  | bclr _ _ _ => contradiction
  | bcctr _ _ _ => contradiction
  | _ => rfl

/-
The state in which a branch is taken.
-/

def takenState (bo : BitVec 5) : Machine Unit where
  gpr := fun _ => 0
  lr := 0
  ctr := if bo.getLsbD 1 then 1 else 2
  cr := if bo.getLsbD 3 then BitVec.allOnes 32 else 0
  mem := fun _ => 0
  cia := 0
  rest := ()

theorem ctrOk_takenState (bo : BitVec 5)
    : ctrOk bo (if bo.getLsbD 2 then (takenState bo).ctr else (takenState bo).ctr - 1) = true := by
  unfold ctrOk takenState
  cases bo.getLsbD 2
  . cases bo.getLsbD 1
    . simp
    . simp
  . rfl

theorem condOk_takenState (bo bi : BitVec 5) : condOk bo bi (takenState bo).cr = true := by
  have hbit : (BitVec.allOnes 32).getLsbD (31 - bi.toNat) = true := by
    rw [BitVec.getLsbD_allOnes, decide_eq_true_eq]
    omega
  unfold condOk takenState
  cases bo.getLsbD 3
  . simp
  . rw [if_pos rfl, hbit]
    simp

theorem exists_taken (i : Insn) (h : i.isBranch = true)
    : ∃ m : Machine Unit, ∀ addr, i.taken { m with cia := addr } = true := by
  cases i with
  | b li aa lk => exact ⟨takenState 0, fun _ => rfl⟩
  | bc bo bi bd aa lk =>
    refine ⟨takenState bo, fun addr => ?_⟩
    simp only [Insn.taken, Insn.ctrAfter, ctrOk_takenState, condOk_takenState, Bool.and_self]
  | bclr bo bi lk =>
    refine ⟨takenState bo, fun addr => ?_⟩
    simp only [Insn.taken, Insn.ctrAfter, ctrOk_takenState, condOk_takenState, Bool.and_self]
  | bcctr bo bi lk =>
    refine ⟨takenState bo, fun addr => ?_⟩
    simp only [Insn.taken, condOk_takenState]
  | _ => contradiction

/-
Words at two addresses.
-/

section Words

variable {ρ : Type} (trap : Machine ρ → Machine ρ) (other : Instruction → Machine ρ → Machine ρ)

-- The words outside of the decoded forms, none of them is a branch, mean `other`.
def execWord (w : Instruction) (m : Machine ρ) : Machine ρ :=
  match decode w with
  | some i => exec trap i m
  | none => other w m

def taken (w : Instruction) (m : Machine ρ) : Bool :=
  match decode w with
  | some i => i.taken m
  | none => false

def Machine.placed (m : Machine ρ) (addr : BitVec 32) : Machine ρ := { m with cia := addr.setWidth 64 }

/--
`w'` at `newAddr` branches like `w` at `originalAddr` and leaves the same CTR and LR.
-/
structure SameBranch (w w' : Instruction) (originalAddr newAddr : BitVec 32) (m : Machine ρ) : Prop where
  taken : taken w' (m.placed newAddr) = taken w (m.placed originalAddr)
  target : Ppc.taken w (m.placed originalAddr) = true →
    (execWord trap other w' (m.placed newAddr)).cia = (execWord trap other w (m.placed originalAddr)).cia
  ctr : (execWord trap other w' (m.placed newAddr)).ctr
    = (execWord trap other w (m.placed originalAddr)).ctr
  lr : (execWord trap other w' (m.placed newAddr)).lr
    = (execWord trap other w (m.placed originalAddr)).lr

theorem sameBranch_of_addressIndependent (w : Instruction) (originalAddr newAddr : BitVec 32)
    (m : Machine ρ) (hexec : AddressIndependent (execWord trap other w))
    (htaken : ∀ m : Machine ρ, Ppc.taken w m = false)
    : SameBranch trap other w w originalAddr newAddr m := by
  have hnew := hexec m (newAddr.setWidth 64)
  have horiginal := hexec m (originalAddr.setWidth 64)
  constructor
  . rw [htaken, htaken]
  . intro h
    rw [htaken] at h
    contradiction
  . unfold Machine.placed
    rw [hnew, horiginal]
  . unfold Machine.placed
    rw [hnew, horiginal]

theorem setWidth_add_four_eq_iff (addr addr' : BitVec 32)
    : addr.setWidth 64 + 4#64 = addr'.setWidth 64 + 4#64 ↔ addr' = addr := by
  have h := addr.isLt
  have h' := addr'.isLt
  rw [← BitVec.toNat_inj, ← BitVec.toNat_inj, BitVec.toNat_add, BitVec.toNat_add, BitVec.toNat_setWidth,
    BitVec.toNat_setWidth, BitVec.toNat_ofNat]
  omega

theorem sameBranch_iff {w w' : Instruction} {i i' : Insn} (hw : decode w = some i) (hw' : decode w' = some i')
    (hi : i.isBranch = true) (hi' : i'.isBranch = true) (hlink : i'.link = i.link)
    (hctr : ∀ ctr, i'.ctrAfter ctr = i.ctrAfter ctr)
    (htaken : ∀ (m : Machine ρ) addr addr',
      i'.taken { m with cia := addr' } = i.taken { m with cia := addr })
    (originalAddr newAddr : BitVec 32) (m : Machine ρ)
    : SameBranch trap other w w' originalAddr newAddr m
        ↔
      (i.taken (m.placed originalAddr) = true →
        i'.target (m.placed newAddr) = i.target (m.placed originalAddr))
        ∧ (i.link = true → originalAddr = newAddr) := by
  have hexec (m : Machine ρ) : execWord trap other w m = exec trap i m := by
    unfold execWord
    rw [hw]
  have hexec' (m : Machine ρ) : execWord trap other w' m = exec trap i' m := by
    unfold execWord
    rw [hw']
  have hword (m : Machine ρ) : Ppc.taken w m = i.taken m := by
    unfold Ppc.taken
    rw [hw]
  have hword' (m : Machine ρ) : Ppc.taken w' m = i'.taken m := by
    unfold Ppc.taken
    rw [hw']
  have hsame : i'.taken (m.placed newAddr) = i.taken (m.placed originalAddr) := by
    apply htaken
  have haddr := setWidth_add_four_eq_iff newAddr originalAddr
  constructor
  . intro h
    constructor
    . intro ht
      have htarget := h.target
      rw [hword, hexec, hexec', exec_branch trap i hi, exec_branch trap i' hi', hsame, ht] at htarget
      exact htarget rfl
    . intro hlk
      have hlr := h.lr
      rw [hexec, hexec', exec_branch trap i hi, exec_branch trap i' hi', hlink, hlk] at hlr
      exact haddr.mp hlr
  . rintro ⟨htarget, hlr⟩
    constructor
    . rw [hword, hword', hsame]
    . rw [hword, hexec, hexec', exec_branch trap i hi, exec_branch trap i' hi', hsame]
      intro ht
      rw [ht]
      exact htarget ht
    . rw [hexec, hexec', exec_branch trap i hi, exec_branch trap i' hi', hctr]
      rfl
    . rw [hexec, hexec', exec_branch trap i hi, exec_branch trap i' hi', hlink]
      cases hlk : i.link
      . rfl
      . exact haddr.mpr (hlr hlk)

end Words

end Ppc
end ElfCraft
