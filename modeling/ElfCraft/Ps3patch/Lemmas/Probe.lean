import ElfCraft.Ps3patch.Lemmas.Transparent

/-!
This module contains the other direction: a displaced instruction that copies the TOC pointer and a
value in `r12` tell every other hijack from the original program.
-/

namespace ElfCraft
namespace Ps3patch

open Binary Elf Ppc Exec detail StateTransition

/-
The probe: system calls that do nothing and `mr r3, r2` for every displaced word.
-/

def probeTrap (m : Machine Unit) : Machine Unit := m.next

def probeSem (_ : Instruction) (m : Machine Unit) : Machine Unit := (m.setGpr 3 (m.gpr 2)).next

def probe (entry : EntryDescriptor) (v : BitVec 64) : Machine Unit where
  gpr := fun r => if r = 12 then v else if r = 3 then entry.tocValue + 1 else 0
  lr := 0
  ctr := 0
  cr := 0
  mem := fun _ => 0
  cia := entry.codeAddress
  rest := ()

theorem keepsCallers_probeTrap : KeepsCallers probeTrap := by
  constructor
  . intro m
    rfl
  . intro m
    exact ⟨fun _ _ => rfl, rfl, rfl, fun _ _ => rfl⟩

theorem displaceable_probeSem (sp : BitVec 64) (w : Instruction) : Displaceable sp (probeSem w) := by
  constructor
  . intro m
    rfl
  . intro m m' h
    constructor
    . show (fun r => if r = 3 then m.gpr 2 else m.gpr r) = fun r => if r = 3 then m'.gpr 2 else m'.gpr r
      rw [h.gpr]
    . exact h.lr
    . exact h.ctr
    . exact h.cr
    . exact h.rest
    . exact h.mem

theorem runOriginal_probeSem (ws : List Instruction) (hne : ws ≠ []) (m : Machine Unit)
    : (runOriginal probeSem ws m).gpr 3 = m.gpr 2
        ∧
      (runOriginal probeSem ws m).gpr 12 = m.gpr 12 := by
  have hkept (ws : List Instruction) (m : Machine Unit) (h : m.gpr 3 = m.gpr 2)
      : (runOriginal probeSem ws m).gpr 3 = m.gpr 2 ∧ (runOriginal probeSem ws m).gpr 12 = m.gpr 12 := by
    induction ws generalizing m with
    | nil => exact ⟨h, rfl⟩
    | cons w ws ih => exact ih (probeSem w m) rfl
  cases ws with
  | nil => contradiction
  | cons w ws => exact hkept ws (probeSem w m) rfl

/--
What a transparent hijack does to the probe.
-/
theorem Transparent.probe {entry : EntryDescriptor} {r : TrampolineResult}
    {originals : List Instruction} (h : Transparent entry r originals) (hne : originals ≠ [])
    (v : BitVec 64)
    : ∃ m', Until (step probeTrap probeSem entry.codeAddress r) (atRemainder entry.codeAddress r)
          (Ps3patch.probe entry v) m'
        ∧ m'.gpr 3 = entry.tocValue ∧ m'.gpr 12 = v := by
  obtain ⟨m', hrun, hregs⟩ := h Unit probeTrap probeSem (Ps3patch.probe entry v) keepsCallers_probeTrap
    (fun w _ => displaceable_probeSem _ w) rfl
  obtain ⟨h3, h12⟩ := runOriginal_probeSem originals hne ((Ps3patch.probe entry v).setGpr 2 entry.tocValue)
  refine ⟨m', hrun, ?_, ?_⟩
  . rw [hregs.gpr 3 (by decide), h3]
    rfl
  . rw [hregs.gpr 12 (by decide), h12]
    rfl

theorem gpr_3_probe_ne (entry : EntryDescriptor) (v : BitVec 64)
    : (probe entry v).gpr 3 ≠ entry.tocValue := by
  show entry.tocValue + 1 ≠ entry.tocValue
  intro heq
  have hnat := congrArg BitVec.toNat heq
  rw [BitVec.toNat_add] at hnat
  replace hnat : (entry.tocValue.toNat + 1) % 2 ^ 64 = entry.tocValue.toNat := hnat
  omega

theorem setGpr_probe (entry : EntryDescriptor) (v v' l : BitVec 64)
    : (probe entry v).setGpr 12 l = (probe entry v').setGpr 12 l := by
  rw [Machine.setGpr, Machine.setGpr, Machine.mk.injEq]
  refine ⟨?_, rfl, rfl, rfl, rfl, rfl, rfl⟩
  funext reg
  split
  . rfl
  . next hne =>
    show (if reg = 12 then _ else _) = if reg = 12 then _ else _
    rw [if_neg hne, if_neg hne]

section Loop

variable {file : Ps3ElfFile} {entry : EntryDescriptor} {T : BitVec 32} {path : List Byte}
variable {r : TrampolineResult} {entryOffset : BitVec 64} {originals : List Instruction}
variable (b : Built file entry T path r entryOffset originals originals)
include b

theorem Built.cia_step_emitted (j : Nat) (w : Instruction) (i : Insn)
    (hw : (code entry T originals)[j]? = some w) (hj : j < 49 ∨ 49 + displaced entry T ≤ j)
    (hdecode : decode w = some i) (hseq : i.isBranch = false)
    (haway : 4 * displaced entry T ≤ (codeAddr T j - entry.codeAddress).toNat) (t t' : Machine Unit)
    (ht : t.cia = codeAddr T j) (hstep : step probeTrap probeSem entry.codeAddress r t = some t')
    : t'.cia = codeAddr T (j + 1) := by
  have hslot := b.slotAt_code j w hw haway
  rw [if_neg (by omega), ← ht] at hslot
  rw [step_of_emitted _ _ _ _ w i t hslot hdecode, Option.some.injEq] at hstep
  rw [← hstep, cia_exec probeTrap keepsCallers_probeTrap.returns i hseq, ht]
  apply codeAddr_add T j 1

theorem Built.cia_step_code (hn : displaced entry T = 1) (j : Nat)
    (hj : j + 1 < 50 + (jumpBack entry T).length)
    (haway : 4 ≤ (codeAddr T j - entry.codeAddress).toNat) (t t' : Machine Unit)
    (ht : t.cia = codeAddr T j) (hstep : step probeTrap probeSem entry.codeAddress r t = some t')
    : t'.cia = codeAddr T (j + 1) := by
  rcases Nat.lt_trichotomy j 49 with hlt | heq | hgt
  . have hdec := decodes_fixed (pathBase entry T) (entry.tocValue.setWidth 32)
    have hlen := hdec.length_eq
    rw [length_fixed] at hlen
    have hi := List.getElem?_eq_getElem (by omega : j < (fixedInsns (pathBase entry T)
      (entry.tocValue.setWidth 32)).length)
    obtain ⟨w, hw, hdecode⟩ := hdec.getElem? j _ hi
    apply b.cia_step_emitted j w _ _ (.inl hlt) hdecode _ (by omega) t t' ht hstep
    . unfold code
      rw [List.append_assoc, List.getElem?_append_left (by rw [length_fixed]; exact hlt)]
      exact hw
    . apply isBranch_fixedInsns (pathBase entry T) (entry.tocValue.setWidth 32)
      apply List.mem_of_getElem? hi
  . subst heq
    have hlen := b.length_resumed
    have hw := List.getElem?_eq_getElem (by omega : 0 < originals.length)
    have hcode : (code entry T originals)[49]? = some originals[0] := by
      have hslice := slice_code_resumed entry T originals
      have hword := congrArg (fun l => l[0]?) hslice
      simp only [getElem?_slice, hlen, hn, Nat.zero_lt_one, ↓reduceIte, hw] at hword
      exact hword
    have hslot := b.slotAt_code 49 _ hcode (by omega)
    rw [if_pos (by omega), ← ht] at hslot
    unfold step at hstep
    rw [hslot, Option.some.injEq] at hstep
    rw [← hstep]
    show t.cia + 4 = _
    rw [ht]
    apply codeAddr_add T 49 1
  . have hfar : ¬ Reaches (backDisp entry T) := by
      intro hback
      rw [jumpBack_eq entry T hn, if_pos hback, List.length_singleton] at hj
      omega
    have hjump : jumpBack entry T = makeAbsoluteJump (entryAddr entry + BitVec.ofNat 32 4) 12 := by
      rw [jumpBack_eq entry T hn, if_neg hfar]
    have hdec : Decodes (jumpBack entry T) (absoluteJumpInsns (entryAddr entry + BitVec.ofNat 32 4) 12) := by
      rw [hjump]
      exact decodes_makeAbsoluteJump (entryAddr entry + BitVec.ofNat 32 4) 12
    have hlen := hdec.length_eq
    have hi := List.getElem?_eq_getElem (by omega : j - 50 < (absoluteJumpInsns
      (entryAddr entry + BitVec.ofNat 32 4) 12).length)
    obtain ⟨w, hw, hdecode⟩ := hdec.getElem? (j - 50) _ hi
    apply b.cia_step_emitted j w _ _ (.inr (by omega)) hdecode _ (by omega) t t' ht hstep
    . have hcode := b.getElem?_code_jumpBack hn (j - 50) w hw
      rw [show 50 + (j - 50) = j by omega] at hcode
      exact hcode
    . apply isBranch_absoluteJumpInsns (entryAddr entry + BitVec.ofNat 32 4) 12
      rw [List.dropLast_eq_take]
      apply List.mem_of_getElem? (i := j - 50)
      rw [List.getElem?_take_of_lt (by omega)]
      exact hi

/--
A window on top of the code sends the processor back to its start, forever.
-/
theorem Built.not_until_of_overlap (hin : Reaches (inDisp entry T))
    (hland : entry.codeAddress + BitVec.ofInt 64 (inDisp entry T) = codeAddr T 0) (k : Nat)
    (hk : k < 50 + (jumpBack entry T).length) (hC : entry.codeAddress = codeAddr T k)
    (m m' : Machine Unit) (hm : m.cia = codeAddr T 0)
    : ¬ Until (step probeTrap probeSem entry.codeAddress r) (atRemainder entry.codeAddress r) m m' := by
  have hn := displaced_of_reaches entry T hin
  have hback : (jumpBack entry T).length = 1 ∨ (jumpBack entry T).length = 5 := by
    apply length_makeMinimalJump
  have hT := T.isLt
  have haddr := toNat_codeAddr T k (by omega)
  apply not_until_of_invariant (fun t => ∃ j ≤ k, t.cia = codeAddr T j)
  . exact ⟨0, Nat.zero_le k, hm⟩
  . rintro t t' ⟨j, hj, ht⟩ hstep
    have haddr' := toNat_codeAddr T j (by omega)
    rcases Nat.lt_or_eq_of_le hj with hlt | heq
    . refine ⟨j + 1, hlt, ?_⟩
      apply b.cia_step_code hn j (by omega) _ t t' ht hstep
      rw [hC, BitVec.toNat_sub]
      omega
    . rw [heq, ← hC] at ht
      rw [b.step_landing probeSem probeTrap hin t ht, Option.some.injEq] at hstep
      refine ⟨0, Nat.zero_le k, ?_⟩
      rw [← hstep]
      exact hland
  . rintro t ⟨j, hj, ht⟩
    have haddr' := toNat_codeAddr T j (by omega)
    apply b.not_atRemainder _ _ t ht
    rw [hn, hC, BitVec.toNat_sub]
    omega

end Loop

section Necessary

variable {file : Ps3ElfFile} {entry : EntryDescriptor} {T : BitVec 32} {path : List Byte}
variable {r : TrampolineResult} {entryOffset : BitVec 64} {originals : List Instruction}
variable (b : Built file entry T path r entryOffset originals originals)
variable (h : Transparent entry r originals)
include b

theorem Built.originals_ne_nil : originals ≠ [] := by
  have hlen := b.length_resumed
  have hn := displaced_eq entry T
  intro hnil
  rw [hnil, List.length_nil] at hlen
  omega

include h

/--
The long jump to the trampoline forgets what was in `r12`.
-/
theorem Built.reaches_inDisp_of_transparent : Reaches (inDisp entry T) := by
  apply Decidable.by_contra
  intro hfar
  have hjump : jumpIn entry T = makeAbsoluteJump (codeBase T) 12 := by
    unfold jumpIn
    rw [makeMinimalJump_eq, ← inDisp, if_neg hfar]
  have hdec := decodes_makeAbsoluteJump (codeBase T) 12
  have hreach (v : BitVec 64) := b.reaches_window probeSem
    keepsCallers_probeTrap.returns (absoluteJumpInsns (codeBase T) 12) (by rw [hjump]; exact hdec)
    (isBranch_absoluteJumpInsns _ 12) (Ps3patch.probe entry v) rfl
  have hsame : after (effects probeTrap (absoluteJumpInsns (codeBase T) 12)) (Ps3patch.probe entry 0)
      = after (effects probeTrap (absoluteJumpInsns (codeBase T) 12)) (Ps3patch.probe entry 1) := by
    rw [after_absoluteJumpInsns, after_absoluteJumpInsns, setGpr_probe entry 0 1]
  obtain ⟨m₀, hrun₀, -, h₀⟩ := h.probe b.originals_ne_nil 0
  obtain ⟨m₁, hrun₁, -, h₁⟩ := h.probe b.originals_ne_nil 1
  replace hrun₀ := hrun₀.of_reaches (hreach 0)
  replace hrun₁ := hrun₁.of_reaches (hreach 1)
  rw [hsame] at hrun₀
  rw [hrun₀.unique hrun₁, h₁] at h₀
  contradiction

theorem Built.page_of_transparent
    : entry.codeAddress.toNat / 2 ^ 32 = (T.toNat + 8) / 2 ^ 32 := by
  have hin := b.reaches_inDisp_of_transparent h
  have hn := displaced_of_reaches entry T hin
  have hT := T.isLt
  have hC := entry.codeAddress.isLt
  have halign := b.addr_aligned
  have halign' := b.code_aligned
  obtain ⟨m', hrun, h3, -⟩ := h.probe b.originals_ne_nil 0
  replace hrun := hrun.of_reaches
    (b.reaches_landing probeSem keepsCallers_probeTrap hin (Ps3patch.probe entry 0) rfl)
  have hX : (entry.codeAddress + BitVec.ofInt 64 (inDisp entry T)).toNat
      = 2 ^ 32 * (entry.codeAddress.toNat / 2 ^ 32) + (T.toNat + 8) % 2 ^ 32 := by
    rw [BitVec.toNat_add, BitVec.toNat_ofInt, inDisp_eq]
    omega
  have hstep := b.step_landing probeSem probeTrap hin
  generalize entry.codeAddress + BitVec.ofInt 64 (inDisp entry T) = X at hX hrun hstep
  apply Decidable.by_contra
  intro hpage
  by_cases hstop : X = remainder entry.codeAddress r
  . rw [hrun.of_stop hstop] at h3
    exact gpr_3_probe_ne entry 0 h3
  . by_cases hself : X = entry.codeAddress
    . revert hrun
      apply not_until_of_invariant (fun t => t.cia = entry.codeAddress) hself
      . intro t t' ht hsome
        rw [hstep t ht, Option.some.injEq] at hsome
        rw [← hsome]
        exact hself
      . intro t ht
        apply b.not_atRemainder _ _ t ht
        rw [BitVec.sub_self, hn]
        decide
    . have hne : X.toNat ≠ entry.codeAddress.toNat := by
        intro heq
        exact hself (BitVec.eq_of_toNat_eq heq)
      revert hrun
      apply not_until_of_slotAt _ _ _ _ _ _ hstop
      apply b.slotAt_eq_none X
      . rw [hn, BitVec.toNat_sub]
        omega
      . rw [BitVec.toNat_sub, BitVec.toNat_setWidth]
        omega

theorem Built.away_of_transparent (k : Nat) (hk : k < 50 + (jumpBack entry T).length)
    : Away entry T k := by
  have hin := b.reaches_inDisp_of_transparent h
  have hpage := b.page_of_transparent h
  have hland := add_inDisp entry T hpage
  have hn := displaced_of_reaches entry T hin
  have hback : (jumpBack entry T).length = 1 ∨ (jumpBack entry T).length = 5 := by
    apply length_makeMinimalJump
  have hT := T.isLt
  have halign := b.addr_aligned
  have halign' := b.code_aligned
  have haddr := toNat_codeAddr T k (by omega)
  obtain ⟨m', hrun, h3, -⟩ := h.probe b.originals_ne_nil 0
  replace hrun := hrun.of_reaches
    (b.reaches_landing probeSem keepsCallers_probeTrap hin (Ps3patch.probe entry 0) rfl)
  rw [hland] at hrun
  unfold Away
  apply Decidable.by_contra
  intro hnear
  rw [hn, BitVec.toNat_sub, haddr] at hnear
  -- the window itself or the address behind it is the one of the word
  rcases (by omega : entry.codeAddress.toNat = T.toNat + 8 + 4 * k
    ∨ entry.codeAddress.toNat + 4 = T.toNat + 8 + 4 * k) with hC | hC
  . revert hrun
    apply b.not_until_of_overlap hin hland k hk _ _ _ rfl
    apply BitVec.eq_of_toNat_eq
    omega
  . cases k with
    | zero =>
      have hstop : codeAddr T 0 = remainder entry.codeAddress r := by
        apply BitVec.eq_of_toNat_eq
        rw [b.remainder_eq, hn, BitVec.toNat_add, BitVec.toNat_ofNat]
        omega
      rw [hrun.of_stop hstop] at h3
      exact gpr_3_probe_ne entry 0 h3
    | succ k =>
      revert hrun
      apply b.not_until_of_overlap hin hland k (by omega) _ _ _ rfl
      have haddr' := toNat_codeAddr T k (by omega)
      apply BitVec.eq_of_toNat_eq
      omega

/--
The long jump back leaves its target in `r12`, if it gets there.
-/
theorem Built.reaches_backDisp_of_transparent : Reaches (backDisp entry T) := by
  have hin := b.reaches_inDisp_of_transparent h
  have hpage := b.page_of_transparent h
  have hn := displaced_of_reaches entry T hin
  have hT := T.isLt
  have hlower := hin.lower
  have hupper := hin.upper
  rw [inDisp_eq] at hlower hupper
  have halign := b.addr_aligned
  have halign' := b.code_aligned
  apply Decidable.by_contra
  intro hfar
  have haway (k : Nat) (hk : k < 55) : Away entry T k := by
    apply b.away_of_transparent h k
    rw [jumpBack_eq entry T hn, if_neg hfar, length_makeAbsoluteJump]
    exact hk
  have hdisp : (entryAddr entry + BitVec.ofNat 32 4).toNat = (entry.codeAddress.toNat + 4) % 2 ^ 32 := by
    unfold entryAddr
    rw [BitVec.toNat_add, BitVec.toNat_setWidth, BitVec.toNat_ofNat]
    omega
  have hback := b.reaches_back_far probeSem keepsCallers_probeTrap hn hfar haway
  generalize entryAddr entry + BitVec.ofNat 32 4 = target at hdisp hback
  obtain ⟨m', hrun, -, h12⟩ := h.probe b.originals_ne_nil (loadedImmediate target + 1)
  obtain ⟨s, hreach, hs, -⟩ := b.arrives probeSem keepsCallers_probeTrap hin (add_inDisp entry T hpage)
    (fun k hk => haway k (by omega)) (Ps3patch.probe entry (loadedImmediate target + 1))
    (alikeAlong_of_displaceable (fun w _ => displaceable_probeSem _ w) _) rfl
  replace hrun := hrun.of_reaches (hreach.trans (hback s hs))
  by_cases hstop : loadedImmediate target &&& ~~~3 = remainder entry.codeAddress r
  . rw [hrun.of_stop hstop] at h12
    replace h12 : loadedImmediate target = loadedImmediate target + 1 := h12
    have hnat := congrArg BitVec.toNat h12
    rw [BitVec.toNat_add] at hnat
    replace hnat : (loadedImmediate target).toNat = ((loadedImmediate target).toNat + 1) % 2 ^ 64 := hnat
    omega
  . revert hrun
    apply not_until_of_slotAt _ _ _ _ _ _ hstop
    have hvalue := toNat_loadedImmediate target
    rw [and_not_3 _ (by split at hvalue <;> omega)] at hstop ⊢
    rw [b.remainder_eq, hn, ← BitVec.toNat_inj, BitVec.toNat_add, BitVec.toNat_ofNat, hvalue] at hstop
    apply b.slotAt_eq_none
    . rw [hn, BitVec.toNat_sub, hvalue]
      split at hstop <;> split <;> omega
    . rw [BitVec.toNat_sub, BitVec.toNat_setWidth, hvalue]
      split at hstop <;> split <;> omega

theorem Built.toc_of_transparent : loadedImmediate (entry.tocValue.setWidth 32) = entry.tocValue := by
  have hin := b.reaches_inDisp_of_transparent h
  have hback := b.reaches_backDisp_of_transparent h
  have hpage := b.page_of_transparent h
  have hn := displaced_of_reaches entry T hin
  have haway (k : Nat) (hk : k < 51) : Away entry T k := by
    apply b.away_of_transparent h k
    rw [jumpBack_eq entry T hn, if_pos hback]
    exact hk
  obtain ⟨m', hrun, h3, -⟩ := h.probe b.originals_ne_nil 0
  obtain ⟨s, hreach, hs, hagree⟩ := b.arrives probeSem keepsCallers_probeTrap hin
    (add_inDisp entry T hpage) (fun k hk => haway k (by omega)) (Ps3patch.probe entry 0)
    (alikeAlong_of_displaceable (fun w _ => displaceable_probeSem _ w) _) rfl
  replace hrun := hrun.of_reaches
    (hreach.trans (b.reaches_back_near probeSem keepsCallers_probeTrap hn hback (haway 50 (by omega)) s hs))
  have hstop : codeAddr T 50 + BitVec.ofInt 64 (backDisp entry T) = remainder entry.codeAddress r := by
    rw [add_backDisp entry T hpage hin hback, b.remainder_eq, hn]
  rw [hrun.of_stop hstop] at h3
  have hs3 : s.gpr 3 = loadedImmediate (entry.tocValue.setWidth 32) := by
    rw [hagree.gpr, (runOriginal_probeSem originals b.originals_ne_nil _).left]
    rfl
  exact hs3.symm.trans h3

theorem Built.near_of_transparent : Near entry T := by
  have hin := b.reaches_inDisp_of_transparent h
  have hback := b.reaches_backDisp_of_transparent h
  have hpage := b.page_of_transparent h
  have hn := displaced_of_reaches entry T hin
  have hT := T.isLt
  have halign := b.addr_aligned
  have halign' := b.code_aligned
  constructor
  . exact hin
  . exact hback
  . exact hpage
  . apply Decidable.by_contra
    intro hoverlap
    have haway (k : Nat) (hk : k < 51) : 4 < (codeAddr T k - entry.codeAddress).toNat := by
      have hfar := b.away_of_transparent h k (by
        rw [jumpBack_eq entry T hn, if_pos hback]
        exact hk)
      unfold Away at hfar
      omega
    rcases (by omega : entry.codeAddress.toNat = T.toNat + 208
      ∨ (entry.codeAddress.toNat - T.toNat - 4) / 4 < 51) with hlast | hlt
    . have hfar := haway 50 (by omega)
      rw [BitVec.toNat_sub, toNat_codeAddr T 50 (by omega)] at hfar
      omega
    . have hfar := haway _ hlt
      rw [BitVec.toNat_sub, toNat_codeAddr T _ (by omega)] at hfar
      omega
  . rw [← loadedImmediate_setWidth_eq_iff]
    exact b.toc_of_transparent h

end Necessary

/--
Without branches in the window the hijack is transparent exactly under `Near`.
-/
theorem buildTrampoline_transparent_iff (file : Ps3ElfFile) (entry : EntryDescriptor) (T : BitVec 32)
    (path : List Byte) (r : TrampolineResult) (originals : List Instruction)
    (h : buildTrampoline file entry T path = .ok r)
    (horiginals : displacedWindow file entry r.displacedInstructionCount = .ok originals)
    (hbranch : ∀ w ∈ originals, (classify w).kind = .NotABranch)
    : Transparent entry r originals ↔ Near entry T := by
  obtain ⟨entryOffset, originals', resumed, b⟩ := built_of_buildTrampoline _ _ _ _ _ h
  rw [b.displacedWindow_eq, Except.ok.injEq] at horiginals
  subst horiginals
  have hresumed := b.resumed_eq hbranch
  subst hresumed
  constructor
  . apply b.near_of_transparent
  . apply b.transparent_of_near

theorem buildTrampoline_transparent_plainSample
    : ∃ r originals,
        buildTrampoline (ElfFile.fileOf true .Big plainSample) ⟨0x10080, 0x30000, 0⟩ 0x20000 [0x61]
            = .ok r
          ∧ (Transparent ⟨0x10080, 0x30000, 0⟩ r originals
            ↔ Near ⟨0x10080, 0x30000, 0⟩ 0x20000) := by
  have hok : (buildTrampoline (ElfFile.fileOf true .Big plainSample) ⟨0x10080, 0x30000, 0⟩ 0x20000
      [0x61]).isOk = true := by
    decide +kernel
  obtain ⟨r, hr⟩ := exists_ok_of_isOk hok
  obtain ⟨entryOffset, originals, resumed, b⟩ := built_of_buildTrampoline _ _ _ _ _ hr
  have hwindow := b.displacedWindow_eq
  have hcount : r.displacedInstructionCount = 1 := by
    rw [b.count_eq]
    show displaced ⟨0x10080, 0x30000, 0⟩ 0x20000 = 1
    decide +kernel
  have hnop : displacedWindow (ElfFile.fileOf true .Big plainSample) ⟨0x10080, 0x30000, 0⟩ 1
      = .ok [0x60000000] := by
    decide +kernel
  have horiginals := hwindow
  rw [hcount, hnop, Except.ok.injEq] at horiginals
  have hbranch : ∀ w ∈ originals, (classify w).kind = .NotABranch := by
    intro w hw
    rw [← horiginals, List.mem_singleton] at hw
    rw [hw]
    decide
  exact ⟨r, originals, hr, buildTrampoline_transparent_iff _ _ _ _ _ _ hr hwindow hbranch⟩

/--
From 256 MiB away the entry point is left through the long jump.
-/
theorem buildTrampoline_transparent_far
    : ∃ r originals,
        buildTrampoline (ElfFile.fileOf true .Big plainSample) ⟨0x10080, 0x30000, 0⟩ 0x10000000 [0x61]
            = .ok r
          ∧ displacedWindow (ElfFile.fileOf true .Big plainSample) ⟨0x10080, 0x30000, 0⟩
              r.displacedInstructionCount = .ok originals
          ∧ (∀ w ∈ originals, (classify w).kind = .NotABranch)
          ∧ ¬ Transparent ⟨0x10080, 0x30000, 0⟩ r originals := by
  have hok : (buildTrampoline (ElfFile.fileOf true .Big plainSample) ⟨0x10080, 0x30000, 0⟩ 0x10000000
      [0x61]).isOk = true := by
    decide +kernel
  obtain ⟨r, hr⟩ := exists_ok_of_isOk hok
  obtain ⟨entryOffset, originals, resumed, b⟩ := built_of_buildTrampoline _ _ _ _ _ hr
  have hwindow := b.displacedWindow_eq
  have hcount : r.displacedInstructionCount = 5 := by
    rw [b.count_eq]
    show displaced ⟨0x10080, 0x30000, 0⟩ 0x10000000 = 5
    decide +kernel
  have hnops : displacedWindow (ElfFile.fileOf true .Big plainSample) ⟨0x10080, 0x30000, 0⟩ 5
      = .ok (List.replicate 5 0x60000000) := by
    decide +kernel
  have horiginals := hwindow
  rw [hcount, hnops, Except.ok.injEq] at horiginals
  have hbranch : ∀ w ∈ originals, (classify w).kind = .NotABranch := by
    intro w hw
    rw [← horiginals] at hw
    rw [List.eq_of_mem_replicate hw]
    decide
  have hresumed := b.resumed_eq hbranch
  subst hresumed
  refine ⟨r, resumed, hr, hwindow, hbranch, ?_⟩
  intro htransparent
  have hreaches := b.reaches_inDisp_of_transparent htransparent
  revert hreaches
  decide +kernel

end Ps3patch
end ElfCraft
