import ElfCraft.Ps3patch.Lemmas.Hijack

/-!
This module contains when the hijack is transparent for the program: exactly when one branch is enough
for both of the jumps, they stay clear of each other and the TOC pointer can be loaded.
-/

namespace ElfCraft
namespace Ps3patch

open Binary Elf Ppc Exec detail StateTransition

def inDisp (entry : EntryDescriptor) (T : BitVec 32) : Int :=
  jumpDisp (entryAddr entry) (codeBase T)

-- The jump back behind one displaced word.
def backDisp (entry : EntryDescriptor) (T : BitVec 32) : Int :=
  jumpDisp (resumeBase T + BitVec.ofNat 32 4) (entryAddr entry + BitVec.ofNat 32 4)

/--
The conditions on the addresses and on the TOC pointer of the entry point.
-/
structure Near (entry : EntryDescriptor) (T : BitVec 32) : Prop where
  jumpIn : Reaches (inDisp entry T)
  jumpBack : Reaches (backDisp entry T)
  page : entry.codeAddress.toNat / 2 ^ 32 = (T.toNat + 8) / 2 ^ 32
  apart : entry.codeAddress.toNat < T.toNat + 4 ∨ T.toNat + 8 + 4 * 51 ≤ entry.codeAddress.toNat
  toc : entry.tocValue.toNat < 0x80000000
    ∨ (0xFFFF80000000 ≤ entry.tocValue.toNat ∧ entry.tocValue.toNat < 0x1000000000000)

section Addresses

variable (entry : EntryDescriptor) (T : BitVec 32)

theorem inDisp_eq
    : inDisp entry T
        =
      (((T.toNat + 8) % 2 ^ 32 : Nat) : Int) - ((entry.codeAddress.toNat % 2 ^ 32 : Nat) : Int) := by
  unfold inDisp jumpDisp codeBase entryAddr
  rw [BitVec.toNat_add, BitVec.toNat_setWidth]
  rfl

theorem backDisp_eq
    : backDisp entry T
        =
      (((entry.codeAddress.toNat + 4) % 2 ^ 32 : Nat) : Int) - (((T.toNat + 208) % 2 ^ 32 : Nat) : Int) := by
  unfold backDisp jumpDisp resumeBase codeBase entryAddr
  rw [BitVec.toNat_add, BitVec.toNat_add, BitVec.toNat_add, BitVec.toNat_add, BitVec.toNat_setWidth,
    BitVec.toNat_ofNat, BitVec.toNat_ofNat]
  show (((entry.codeAddress.toNat % 2 ^ 32 + 4) % 2 ^ 32 : Nat) : Int)
    - ((((T.toNat + 8) % 2 ^ 32 + 196) % 2 ^ 32 + 4) % 2 ^ 32 : Nat) = _
  omega

theorem jumpIn_of_reaches (h : Reaches (inDisp entry T)) : jumpIn entry T = [branchWord (inDisp entry T)] := by
  unfold jumpIn
  rw [makeMinimalJump_eq, ← inDisp, if_pos h]

theorem displaced_of_reaches (h : Reaches (inDisp entry T)) : displaced entry T = 1 := by
  unfold displaced
  rw [jumpIn_of_reaches entry T h]
  rfl

theorem jumpBack_eq (h : displaced entry T = 1)
    : jumpBack entry T
        =
      if Reaches (backDisp entry T) then
        [branchWord (backDisp entry T)]
      else
        makeAbsoluteJump (entryAddr entry + BitVec.ofNat 32 4) 12 := by
  unfold jumpBack
  rw [h, makeMinimalJump_eq]
  rfl

/--
The jump lands at the code if the window and the code are in the same 4 GiB.
-/
theorem add_inDisp (hpage : entry.codeAddress.toNat / 2 ^ 32 = (T.toNat + 8) / 2 ^ 32)
    : entry.codeAddress + BitVec.ofInt 64 (inDisp entry T) = codeAddr T 0 := by
  have hT := T.isLt
  apply BitVec.eq_of_toNat_eq
  rw [toNat_codeAddr T 0 (by omega), BitVec.toNat_add, BitVec.toNat_ofInt, inDisp_eq]
  omega

theorem add_backDisp (hpage : entry.codeAddress.toNat / 2 ^ 32 = (T.toNat + 8) / 2 ^ 32)
    (hin : Reaches (inDisp entry T)) (hback : Reaches (backDisp entry T))
    : codeAddr T 50 + BitVec.ofInt 64 (backDisp entry T)
        =
      entry.codeAddress + BitVec.ofNat 64 (4 * 1) := by
  have hT := T.isLt
  have h1 := hin.lower
  have h2 := hin.upper
  have h3 := hback.lower
  have h4 := hback.upper
  rw [inDisp_eq] at h1 h2
  rw [backDisp_eq] at h3 h4
  apply BitVec.eq_of_toNat_eq
  rw [BitVec.toNat_add, toNat_codeAddr T 50 (by omega), BitVec.toNat_ofInt, backDisp_eq, BitVec.toNat_add,
    BitVec.toNat_ofNat]
  omega

theorem away_of_near (n : Near entry T) (k : Nat) (hk : k < 51) : Away entry T k := by
  have hT := T.isLt
  have hpage := n.page
  have hapart := n.apart
  unfold Away
  rw [displaced_of_reaches entry T n.jumpIn, BitVec.toNat_sub, toNat_codeAddr T k (by omega)]
  omega

end Addresses

/-
What the TOC fix up loads.
-/

theorem loadedImmediate_eq_append (value : BitVec 32)
    : loadedImmediate value = ((if value.msb then 0xFFFF#16 else 0#16) ++ value).setWidth 64 := by
  apply BitVec.eq_of_getLsbD_eq
  intro i hi
  rw [getLsbD_loadedImmediate, BitVec.getLsbD_setWidth, BitVec.getLsbD_append]
  rcases Nat.lt_or_ge i 32 with hlow | hhigh
  . simp [hi, hlow, show i < 48 by omega]
  . have hones : (0xFFFF#16).getLsbD (i - 32) = decide (i < 48) := by
      have hall : 0xFFFF#16 = BitVec.allOnes 16 := by
        rfl
      rw [hall, BitVec.getLsbD_allOnes, decide_eq_decide]
      omega
    cases value.msb with
    | false => simp [show ¬ i < 32 by omega]
    | true => simp [show ¬ i < 32 by omega, hi, hones]

theorem toNat_loadedImmediate (value : BitVec 32)
    : (loadedImmediate value).toNat
        =
      (if value.toNat < 0x80000000 then 0 else 0xFFFF00000000) + value.toNat := by
  have hvalue := value.isLt
  have hmsb := BitVec.msb_eq_decide value
  rw [loadedImmediate_eq_append, BitVec.toNat_setWidth, BitVec.toNat_append,
    ← Nat.shiftLeft_add_eq_or_of_lt hvalue, Nat.shiftLeft_eq]
  by_cases hlt : value.toNat < 0x80000000
  . rw [hmsb, decide_eq_false (by omega), if_pos hlt]
    show (0 * 2 ^ 32 + value.toNat) % 2 ^ 64 = 0 + value.toNat
    omega
  . rw [hmsb, decide_eq_true (by omega), if_neg hlt]
    show (0xFFFF * 2 ^ 32 + value.toNat) % 2 ^ 64 = _
    omega

theorem loadedImmediate_setWidth_eq_iff (toc : BitVec 64)
    : loadedImmediate (toc.setWidth 32) = toc
        ↔
      toc.toNat < 0x80000000 ∨ (0xFFFF80000000 ≤ toc.toNat ∧ toc.toNat < 0x1000000000000) := by
  have htoc := toc.isLt
  rw [← BitVec.toNat_inj, toNat_loadedImmediate, BitVec.toNat_setWidth]
  split
  . omega
  . omega

section Chain

variable {file : Ps3ElfFile} {entry : EntryDescriptor} {T : BitVec 32} {path : List Byte}
variable {r : TrampolineResult} {entryOffset : BitVec 64} {originals : List Instruction}
variable (b : Built file entry T path r entryOffset originals originals)
variable {ρ : Type} {trap : Machine ρ → Machine ρ} (sem : Instruction → Machine ρ → Machine ρ)
variable (htrap : KeepsCallers trap)
include b

theorem Built.step_landing (trap : Machine ρ → Machine ρ) (hin : Reaches (inDisp entry T)) (m : Machine ρ)
    (hm : m.cia = entry.codeAddress)
    : step trap sem entry.codeAddress r m
        =
      some { m with cia := entry.codeAddress + BitVec.ofInt 64 (inDisp entry T) } := by
  have hslot := b.slotAt_window 0 (branchWord (inDisp entry T)) (by rw [jumpIn_of_reaches entry T hin]; rfl)
  rw [Nat.mul_zero, BitVec.add_zero] at hslot
  have hexec : exec trap (branchInsn (inDisp entry T)) m
      = { m with cia := entry.codeAddress + BitVec.ofInt 64 (inDisp entry T) } := by
    rw [← hm]
    exact after_branchInsn trap hin m
  rw [← hexec]
  apply step_of_emitted trap sem _ _ (branchWord (inDisp entry T)) _ m
  . rw [hm]
    exact hslot
  . apply decode_branchWord

include htrap

/--
A near jump gets from the entry point to wherever its displacement leads.
-/
theorem Built.reaches_landing (hin : Reaches (inDisp entry T)) (m : Machine ρ)
    (hm : m.cia = entry.codeAddress)
    : Reaches (go (step trap sem entry.codeAddress r) (atRemainder entry.codeAddress r)) m
        { m with cia := entry.codeAddress + BitVec.ofInt 64 (inDisp entry T) } := by
  have hdec := decodes_branchWord (inDisp entry T)
  rw [← jumpIn_of_reaches entry T hin] at hdec
  have h := b.reaches_window sem htrap.returns _ hdec (by simp) m hm
  rw [after_branchInsn trap hin, hm] at h
  exact h

/--
Where the chain is when the resumed instructions are done and how the program would be without it.
-/
theorem Built.arrives (hin : Reaches (inDisp entry T))
    (hland : entry.codeAddress + BitVec.ofInt 64 (inDisp entry T) = codeAddr T 0)
    (haway : ∀ k < 50, Away entry T k) (m : Machine ρ)
    (halike : AlikeAlong (m.gpr 1) (originals.map sem)
      (m.setGpr 2 (loadedImmediate (entry.tocValue.setWidth 32)))) (hm : m.cia = entry.codeAddress)
    : ∃ s, Reaches (go (step trap sem entry.codeAddress r) (atRemainder entry.codeAddress r)) m s
        ∧ s.cia = codeAddr T 50
        ∧ Agree (m.gpr 1) s
            (runOriginal sem originals (m.setGpr 2 (loadedImmediate (entry.tocValue.setWidth 32)))) := by
  have hn := displaced_of_reaches entry T hin
  have hlen := b.length_resumed
  have hfirst := b.reaches_landing sem htrap hin m hm
  rw [hland] at hfirst
  generalize hm₁ : ({ m with cia := codeAddr T 0 } : Machine ρ) = m₁ at hfirst
  -- the fixed part of the code
  have hfixed := b.reaches_code sem htrap.returns 0 _ _
    (decodes_fixed (pathBase entry T) (entry.tocValue.setWidth 32)) (by
      intro k w hw
      have hk := (List.getElem?_eq_some_iff.mp hw).choose
      rw [Nat.zero_add]
      unfold code
      rw [List.append_assoc, List.getElem?_append_left hk, hw])
    (.inl (Nat.le_refl 49))
    (by
      intro k hk
      rw [length_fixed] at hk
      apply haway
      omega)
    (fun i hi => isBranch_fixedInsns _ _ i (List.mem_of_mem_dropLast hi)) m₁ (by rw [← hm₁])
  have hagree := agree_after_fixedInsns trap htrap (pathBase entry T) (entry.tocValue.setWidth 32) m₁
  have hcia := pc_after Machine.cia 4 _ m₁
    (cia_effects trap htrap.returns _ (isBranch_fixedInsns (pathBase entry T) (entry.tocValue.setWidth 32)))
  generalize after (effects trap (fixedInsns (pathBase entry T) (entry.tocValue.setWidth 32))) m₁ = m₂
    at hfixed hagree hcia
  replace hagree : Agree (m.gpr 1) m₂ (m.setGpr 2 (loadedImmediate (entry.tocValue.setWidth 32))) := by
    rw [← hm₁] at hagree
    exact ⟨hagree.gpr, hagree.lr, hagree.ctr, hagree.cr, hagree.rest, hagree.mem⟩
  replace hcia : m₂.cia = codeAddr T 49 := by
    rw [hcia, ← hm₁]
    apply codeAddr_add T 0 49
  -- the displaced words
  have hresumed := b.reaches_resumed sem trap halike hagree (by
    intro k hk
    apply haway
    omega) hcia
  obtain ⟨hend, hciaEnd⟩ := halike.after_take hagree (Nat.le_refl _)
  rw [List.take_length] at hend hciaEnd
  rw [List.length_map, hlen, hn, hcia, codeAddr_add] at hciaEnd
  exact ⟨after (originals.map sem) m₂, (hfirst.trans hfixed).trans hresumed, hciaEnd, hend⟩

omit htrap in
theorem Built.getElem?_code_jumpBack (hn : displaced entry T = 1) (k : Nat) (w : Instruction)
    (hw : (jumpBack entry T)[k]? = some w)
    : (code entry T originals)[50 + k]? = some w := by
  have hk := (List.getElem?_eq_some_iff.mp hw).choose
  have hslice := slice_code_jumpBack entry T originals
  have hword := congrArg (fun l => l[k]?) hslice
  rw [b.length_resumed, hn] at hword
  simp only [getElem?_slice, hk, ↓reduceIte, hw] at hword
  exact hword

theorem Built.reaches_back_near (hn : displaced entry T = 1) (hback : Reaches (backDisp entry T))
    (haway : Away entry T 50) (s : Machine ρ) (hs : s.cia = codeAddr T 50)
    : Reaches (go (step trap sem entry.codeAddress r) (atRemainder entry.codeAddress r)) s
        { s with cia := codeAddr T 50 + BitVec.ofInt 64 (backDisp entry T) } := by
  have hjump : jumpBack entry T = [branchWord (backDisp entry T)] := by
    rw [jumpBack_eq entry T hn, if_pos hback]
  have h := b.reaches_code sem htrap.returns 50 _ _ (decodes_branchWord (backDisp entry T)) (by
      intro k w hw
      rw [← hjump] at hw
      apply b.getElem?_code_jumpBack hn k w hw)
    (.inr (by omega))
    (by
      intro k hk
      rw [List.length_singleton, Nat.lt_one_iff] at hk
      rw [hk]
      exact haway)
    (by simp) s hs
  rw [after_branchInsn trap hback, hs] at h
  exact h

theorem Built.reaches_back_far (hn : displaced entry T = 1) (hfar : ¬ Reaches (backDisp entry T))
    (haway : ∀ k < 55, Away entry T k) (s : Machine ρ) (hs : s.cia = codeAddr T 50)
    : Reaches (go (step trap sem entry.codeAddress r) (atRemainder entry.codeAddress r)) s
        { s.setGpr 12 (loadedImmediate (entryAddr entry + BitVec.ofNat 32 4)) with
          ctr := loadedImmediate (entryAddr entry + BitVec.ofNat 32 4)
          cia := loadedImmediate (entryAddr entry + BitVec.ofNat 32 4) &&& ~~~3 } := by
  have hjump : jumpBack entry T = makeAbsoluteJump (entryAddr entry + BitVec.ofNat 32 4) 12 := by
    rw [jumpBack_eq entry T hn, if_neg hfar]
  have hlen := length_makeAbsoluteJump (entryAddr entry + BitVec.ofNat 32 4) 12
  have h := b.reaches_code sem htrap.returns 50 _ _
    (decodes_makeAbsoluteJump (entryAddr entry + BitVec.ofNat 32 4) 12) (by
      intro k w hw
      apply b.getElem?_code_jumpBack hn k w
      rw [hjump]
      exact hw)
    (.inr (by omega))
    (by
      intro k hk
      replace hk : k < 5 := hk
      apply haway
      omega)
    (isBranch_absoluteJumpInsns _ 12) s hs
  rw [after_absoluteJumpInsns] at h
  exact h

omit htrap in
/--
One direct branch each way is transparent.
-/
theorem Built.transparent_of_near (n : Near entry T) : Transparent entry r originals := by
  have hn := displaced_of_reaches entry T n.jumpIn
  intro ρ trap sem m htrap hsem hm
  obtain ⟨s, hreach, hs, hagree⟩ := b.arrives sem htrap n.jumpIn (add_inDisp entry T n.page)
    (fun k hk => away_of_near entry T n k (by omega)) m
    (alikeAlong_of_displaceable hsem _) hm
  have hback := b.reaches_back_near sem htrap hn n.jumpBack (away_of_near entry T n 50 (by omega)) s hs
  rw [add_backDisp entry T n.page n.jumpIn n.jumpBack] at hback
  rw [(loadedImmediate_setWidth_eq_iff entry.tocValue).mpr n.toc] at hagree
  refine ⟨_, ⟨hreach.trans hback, ?_⟩, ?_⟩
  . show entry.codeAddress + BitVec.ofNat 64 (4 * 1) = _
    rw [b.remainder_eq, hn]
  . constructor
    . intro reg _
      exact congrFun hagree.gpr reg
    . exact hagree.lr
    . exact hagree.ctr

end Chain

end Ps3patch
end ElfCraft
