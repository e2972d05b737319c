import ElfCraft.Exec.Until
import ElfCraft.Ppc.Lemmas.Branch
import ElfCraft.Ppc.Lemmas.LoadImmediate

/-!
This module contains straight line code: the words of a block as the effects of the instructions they
decode to.
-/

namespace ElfCraft
namespace Ppc

open Exec

variable {ρ : Type} (trap : Machine ρ → Machine ρ)

def Insn.isBranch (i : Insn) : Bool :=
  match i with
  | .b _ _ _ => true
  | .bc _ _ _ _ _ => true
  | .bclr _ _ _ => true
  | .bcctr _ _ _ => true
  | _ => false

theorem cia_exec (htrap : ∀ m, (trap m).cia = m.cia + 4) (i : Insn) (h : i.isBranch = false)
    (m : Machine ρ)
    : (exec trap i m).cia = m.cia + 4 := by
  cases i with
  | mtspr rs spr => cases spr <;> rfl
  | mfspr rt spr => cases spr <;> rfl
  | b _ _ _ => contradiction
  | bc _ _ _ _ _ => contradiction
  | bclr _ _ _ => contradiction
  | bcctr _ _ _ => contradiction
  | sc => exact htrap m
  | _ => rfl

-- The words decode to the instructions.
def Decodes (ws : List Instruction) (is : List Insn) : Prop := ws.map decode = is.map some

theorem Decodes.append {ws vs : List Instruction} {is js : List Insn} (h : Decodes ws is)
    (h' : Decodes vs js)
    : Decodes (ws ++ vs) (is ++ js) := by
  unfold Decodes at *
  rw [List.map_append, List.map_append, h, h']

theorem Decodes.length_eq {ws : List Instruction} {is : List Insn} (h : Decodes ws is)
    : is.length = ws.length := by
  have hlen := congrArg List.length h
  rw [List.length_map, List.length_map] at hlen
  exact hlen.symm

theorem Decodes.getElem? {ws : List Instruction} {is : List Insn} (h : Decodes ws is) (k : Nat)
    (i : Insn) (hi : is[k]? = some i)
    : ∃ w, ws[k]? = some w ∧ decode w = some i := by
  have hk := congrArg (fun l => l[k]?) h
  simp only [List.getElem?_map, hi, Option.map_some] at hk
  cases hw : ws[k]? with
  | none =>
    rw [hw] at hk
    contradiction
  | some w =>
    rw [hw, Option.map_some, Option.some.injEq] at hk
    exact ⟨w, rfl, hk⟩

theorem Decodes.exists_mem {ws : List Instruction} {is : List Insn} (h : Decodes ws is) {w : Instruction}
    (hw : w ∈ ws)
    : ∃ i ∈ is, decode w = some i := by
  have hmem := List.mem_map_of_mem (f := decode) hw
  rw [h, List.mem_map] at hmem
  obtain ⟨i, hi, hdecode⟩ := hmem
  exact ⟨i, hi, hdecode.symm⟩

-- The effects of a block.
def effects (is : List Insn) : List (Machine ρ → Machine ρ) := is.map (exec trap)

theorem effects_append (is js : List Insn) : effects trap (is ++ js) = effects trap is ++ effects trap js := by
  unfold effects
  rw [List.map_append]

theorem cia_effects (htrap : ∀ m, (trap m).cia = m.cia + 4) (is : List Insn)
    (h : ∀ i ∈ is, i.isBranch = false)
    : ∀ f ∈ effects trap is, ∀ m, (f m).cia = m.cia + BitVec.ofNat 64 4 := by
  intro f hf m
  unfold effects at hf
  rw [List.mem_map] at hf
  obtain ⟨i, hi, rfl⟩ := hf
  exact cia_exec trap htrap i (h i hi) m

theorem execWords_eq_after (ws : List Instruction) (is : List Insn) (h : Decodes ws is)
    (m : Machine ρ)
    : execWords trap ws m = some (after (effects trap is) m) := by
  induction ws generalizing is m with
  | nil =>
    have hnil := List.eq_nil_of_length_eq_zero h.length_eq
    rw [hnil]
    rfl
  | cons w ws ih =>
    cases is with
    | nil => cases h
    | cons i is =>
      unfold Decodes at h
      rw [List.map_cons, List.map_cons, List.cons.injEq] at h
      simp only [execWords, h.left]
      exact ih is h.right (exec trap i m)

def loadImmediateInsns (reg : BitVec 5) (value : BitVec 32) : List Insn :=
  [.addis reg 0 (((value >>> 16) &&& 0xFFFF#32).setWidth 16),
    .ori reg reg ((value &&& 0xFFFF#32).setWidth 16), .rldicl reg reg 0 16]

theorem decodes_loadImmediate32 (reg : BitVec 5) (value : BitVec 32)
    : Decodes (loadImmediate32 (reg.setWidth 32) value) (loadImmediateInsns reg value) := by
  unfold Decodes loadImmediate32 loadImmediateInsns
  simp only [List.map_cons, List.map_nil, decode_encodeLis, decode_encodeOri, decode_encodeClrldi_32]

theorem after_loadImmediateInsns (reg : BitVec 5) (value : BitVec 32) (m : Machine ρ)
    : after (effects trap (loadImmediateInsns reg value)) m
        =
      (m.setGpr reg (loadedImmediate value)).next.next.next := by
  have h := execWords_eq_after trap _ _ (decodes_loadImmediate32 reg value) m
  rw [execWords_loadImmediate32, Option.some.injEq] at h
  exact h.symm

def absoluteJumpInsns (target : BitVec 32) (scratch : BitVec 5) : List Insn :=
  loadImmediateInsns scratch target ++ [.mtspr scratch .ctr, .bcctr 20 0 false]

theorem decodes_makeAbsoluteJump (target : BitVec 32) (scratch : BitVec 5)
    : Decodes (makeAbsoluteJump target (scratch.setWidth 32)) (absoluteJumpInsns target scratch) := by
  unfold makeAbsoluteJump absoluteJumpInsns
  apply (decodes_loadImmediate32 scratch target).append
  unfold Decodes
  simp only [List.map_cons, List.map_nil, decode_encodeMtctr, decode_encodeBctr]

theorem after_absoluteJumpInsns (target : BitVec 32) (scratch : BitVec 5) (m : Machine ρ)
    : after (effects trap (absoluteJumpInsns target scratch)) m
        =
      { m.setGpr scratch (loadedImmediate target) with
        ctr := loadedImmediate target, cia := loadedImmediate target &&& ~~~3 } := by
  have h := execWords_eq_after trap _ _ (decodes_makeAbsoluteJump target scratch) m
  rw [execWords_makeAbsoluteJump, Option.some.injEq] at h
  exact h.symm

-- Only the last instruction of the long jump leaves it.
theorem isBranch_absoluteJumpInsns (target : BitVec 32) (scratch : BitVec 5)
    : ∀ i ∈ (absoluteJumpInsns target scratch).dropLast, i.isBranch = false := by
  have hall : (absoluteJumpInsns target scratch).dropLast.all (fun i => !i.isBranch) = true := by
    rfl
  intro i hi
  have h := List.all_eq_true.mp hall i hi
  rw [Bool.not_eq_true'] at h
  exact h

def branchInsn (disp : Int) : Insn := .b ((BitVec.ofInt 32 disp).extractLsb' 2 24) false false

theorem decodes_branchWord (disp : Int) : Decodes [branchWord disp] [branchInsn disp] := by
  unfold Decodes
  rw [List.map_singleton, decode_branchWord]
  rfl

theorem after_branchInsn {disp : Int} (h : Reaches disp) (m : Machine ρ)
    : after (effects trap [branchInsn disp]) m = { m with cia := m.cia + BitVec.ofInt 64 disp } := by
  have htarget : ((BitVec.ofInt 32 disp).extractLsb' 2 24 ++ 0#2).signExtend 64 = BitVec.ofInt 64 disp := by
    apply h.signExtend_append_zero 24
    . rfl
    . omega
    . omega
  show m.branch true (m.cia + ((BitVec.ofInt 32 disp).extractLsb' 2 24 ++ 0#2).signExtend 64) false = _
  rw [htarget]
  rfl

end Ppc
end ElfCraft
