import ElfCraft.Ps3patch.Lemmas.Displaced
import ElfCraft.Ps3patch.Lemmas.Frame

/-!
This module contains the run of a patched program: what the processor finds at the addresses of the
window and of the trampoline, and how the blocks of them take it from the entry point to the resumed
instructions and back.
-/

namespace ElfCraft
namespace Ps3patch

open Binary Elf Ppc Exec detail StateTransition

theorem wordAt_append (before rest : List Byte) (ws : List Instruction) (k : Nat) (w : Instruction)
    (hw : ws[k]? = some w) (hbefore : before.length % 4 = 0) (offset : BitVec 64)
    (hoffset : offset.toNat = before.length + 4 * k)
    : wordAt (before ++ toBigEndianBytes ws ++ rest) offset = some w := by
  have hk := (List.getElem?_eq_some_iff.mp hw).choose
  have hword := slice_toBigEndianBytes before rest ws k w hw
  have hread := readInstructions_toBigEndianBytes [w] []
  rw [List.append_nil] at hread
  unfold wordAt
  rw [if_pos]
  . rw [hoffset, hword]
    exact congrArg (fun ws => ws[0]?) hread
  . simp only [List.length_append, length_toBigEndianBytes]
    omega

theorem wordAt_of_ge (bytes : List Byte) (offset : BitVec 64) (h : bytes.length ≤ offset.toNat)
    : wordAt bytes offset = none := by
  unfold wordAt
  rw [if_neg (by omega)]

-- The address of the `k`-th word of the code, it may be above 32 bits.
def codeAddr (T : BitVec 32) (k : Nat) : BitVec 64 := T.setWidth 64 + BitVec.ofNat 64 (8 + 4 * k)

theorem toNat_codeAddr (T : BitVec 32) (k : Nat) (hk : k < 64)
    : (codeAddr T k).toNat = T.toNat + 8 + 4 * k := by
  have hT := T.isLt
  unfold codeAddr
  rw [BitVec.toNat_add, BitVec.toNat_setWidth, BitVec.toNat_ofNat]
  omega

theorem codeAddr_add (T : BitVec 32) (i k : Nat)
    : codeAddr T i + BitVec.ofNat 64 (4 * k) = codeAddr T (i + k) := by
  unfold codeAddr
  rw [BitVec.add_assoc, ← BitVec.ofNat_add]
  congr 2
  omega

theorem relocateDisplacedInstructions.go_of_not_branch (originalBase newBase : BitVec 32) (i : Nat)
    (ws : List Instruction) (h : ∀ w ∈ ws, (classify w).kind = .NotABranch)
    : go originalBase newBase i ws = .ok ws := by
  induction ws generalizing i with
  | nil => rfl
  | cons w ws ih =>
    have hw := h w List.mem_cons_self
    simp only [go]
    rw [if_neg (by rw [hw]; simp), ih (i + 1) (fun w' hw' => h w' (List.mem_cons_of_mem w hw'))]
    rfl

namespace Built

variable {file : Ps3ElfFile} {entry : EntryDescriptor} {T : BitVec 32} {path : List Byte}
variable {r : TrampolineResult} {entryOffset : BitVec 64} {originals resumed : List Instruction}
variable (b : Built file entry T path r entryOffset originals resumed)
include b

theorem displacedWindow_eq : displacedWindow file entry r.displacedInstructionCount = .ok originals := by
  have hn := displaced_eq entry T
  have hread := (file.readAt_eq_ok_iff entryOffset (displaced entry T * 4) _ (by omega)).mpr
    ⟨b.fits, rfl⟩
  unfold displacedWindow
  rw [b.count_eq, b.offset]
  dsimp only
  rw [hread, b.originals_eq]

theorem resumed_eq (h : ∀ w ∈ originals, (classify w).kind = .NotABranch) : resumed = originals := by
  have hreloc := b.relocated
  unfold relocateDisplacedInstructions at hreloc
  rw [relocateDisplacedInstructions.go_of_not_branch _ _ _ _ h, Except.ok.injEq] at hreloc
  exact hreloc.symm

theorem length_blob_le : r.blob.length ≤ 1271 := by
  obtain ⟨k, hk, hblob⟩ := b.blobLayout.blob_eq
  have hn := displaced_eq entry T
  have hm := b.blobLayout.jumpBack_count
  have hlen := b.blobLayout.words_length
  have hpath := b.path_le
  rw [hblob]
  simp only [List.length_append, length_toBigEndianBytes, List.length_replicate, List.length_singleton]
  show 8 + _ + _ + _ + _ ≤ _
  omega

theorem slotAt_window (k : Nat) (w : Instruction) (hw : (jumpIn entry T)[k]? = some w)
    : slotAt entry.codeAddress r (entry.codeAddress + BitVec.ofNat 64 (4 * k)) = some (.emitted w) := by
  have hk := (List.getElem?_eq_some_iff.mp hw).choose
  have hn := displaced_eq entry T
  unfold displaced at hn
  have hword : wordAt r.entryPatchBytes (BitVec.ofNat 64 (4 * k)) = some w := by
    have h := wordAt_append [] [] (jumpIn entry T) k w hw rfl (BitVec.ofNat 64 (4 * k)) (by
      rw [BitVec.toNat_ofNat, List.length_nil]
      omega)
    rw [List.nil_append, List.append_nil] at h
    rw [b.result]
    exact h
  unfold slotAt
  rw [BitVec.add_comm, BitVec.add_sub_cancel, hword]

theorem slotAt_code (k : Nat) (w : Instruction) (hw : (code entry T resumed)[k]? = some w)
    (haway : 4 * displaced entry T ≤ (codeAddr T k - entry.codeAddress).toNat)
    : slotAt entry.codeAddress r (codeAddr T k)
        =
      some (if 49 ≤ k ∧ k < 49 + displaced entry T then .displaced w else .emitted w) := by
  obtain ⟨pad, -, hblob⟩ := b.blobLayout.blob_eq
  have hk := (List.getElem?_eq_some_iff.mp hw).choose
  have hlen := b.blobLayout.words_length
  have hn := displaced_eq entry T
  have hm := b.blobLayout.jumpBack_count
  have hoffset : (codeAddr T k - T.setWidth 64).toNat = 8 + 4 * k := by
    unfold codeAddr
    rw [BitVec.add_comm, BitVec.add_sub_cancel, BitVec.toNat_ofNat]
    omega
  have hwindow : wordAt r.entryPatchBytes (codeAddr T k - entry.codeAddress) = none := by
    apply wordAt_of_ge
    rw [b.length_entryPatchBytes]
    omega
  have hword : wordAt r.blob (codeAddr T k - T.setWidth 64) = some w := by
    rw [hblob, List.append_assoc, List.append_assoc]
    apply wordAt_append TRAMPOLINE_MAGIC _ _ k w hw rfl
    exact hoffset
  have hresume : resumeOffset = 204 := by
    rfl
  unfold slotAt
  rw [hwindow, b.addr_eq, b.count_eq, hresume]
  dsimp only
  rw [hword, hoffset, Option.map_some]
  congr 1
  by_cases hin : 49 ≤ k ∧ k < 49 + displaced entry T
  . rw [if_pos hin, if_pos (by omega)]
  . rw [if_neg hin, if_neg (by omega)]

theorem slotAt_eq_none (addr : BitVec 64)
    (hwindow : 4 * displaced entry T ≤ (addr - entry.codeAddress).toNat)
    (hblob : 1271 ≤ (addr - T.setWidth 64).toNat)
    : slotAt entry.codeAddress r addr = none := by
  have hle := b.length_blob_le
  unfold slotAt
  rw [wordAt_of_ge, b.addr_eq]
  . dsimp only
    rw [wordAt_of_ge]
    . rfl
    . omega
  . rw [b.length_entryPatchBytes]
    omega

theorem remainder_eq
    : remainder entry.codeAddress r
        =
      entry.codeAddress + BitVec.ofNat 64 (4 * displaced entry T) := by
  unfold remainder
  rw [b.count_eq, Nat.mul_comm]

end Built

/--
The `k`-th word of the code lies behind the window and not at the address behind that either.
-/
def Away (entry : EntryDescriptor) (T : BitVec 32) (k : Nat) : Prop :=
  4 * displaced entry T < (codeAddr T k - entry.codeAddress).toNat

theorem step_of_emitted {ρ : Type} (trap : Machine ρ → Machine ρ)
    (sem : Instruction → Machine ρ → Machine ρ) (codeAddress : BitVec 64) (r : TrampolineResult)
    (w : Instruction) (i : Insn) (m : Machine ρ)
    (hslot : slotAt codeAddress r m.cia = some (.emitted w)) (hw : decode w = some i)
    : step trap sem codeAddress r m = some (exec trap i m) := by
  unfold step
  rw [hslot]
  dsimp only
  rw [hw]
  rfl

theorem not_until_of_slotAt {ρ : Type} (trap : Machine ρ → Machine ρ)
    (sem : Instruction → Machine ρ → Machine ρ) (codeAddress : BitVec 64) (r : TrampolineResult)
    (m m' : Machine ρ) (hstop : ¬ m.cia = remainder codeAddress r)
    (hslot : slotAt codeAddress r m.cia = none)
    : ¬ Until (step trap sem codeAddress r) (atRemainder codeAddress r) m m' := by
  apply not_until_of_stuck
  . unfold step
    rw [hslot]
  . exact hstop

section Blocks

variable {file : Ps3ElfFile} {entry : EntryDescriptor} {T : BitVec 32} {path : List Byte}
variable {r : TrampolineResult} {entryOffset : BitVec 64} {originals resumed : List Instruction}
variable (b : Built file entry T path r entryOffset originals resumed)
variable {ρ : Type} {trap : Machine ρ → Machine ρ} (sem : Instruction → Machine ρ → Machine ρ)
variable (htrap : ∀ m, (trap m).cia = m.cia + 4)
include b

theorem Built.not_atRemainder (addr : BitVec 64)
    (h : (addr - entry.codeAddress).toNat ≠ 4 * displaced entry T) (m : Machine ρ) (hm : m.cia = addr)
    : ¬ atRemainder entry.codeAddress r m := by
  have hn := displaced_eq entry T
  intro hstop
  apply h
  rw [← hm, hstop, b.remainder_eq, BitVec.add_comm, BitVec.add_sub_cancel, BitVec.toNat_ofNat]
  omega

include htrap

theorem Built.reaches_window (is : List Insn) (hdec : Decodes (jumpIn entry T) is)
    (hseq : ∀ i ∈ is.dropLast, i.isBranch = false) (m : Machine ρ) (hm : m.cia = entry.codeAddress)
    : Reaches (go (step trap sem entry.codeAddress r) (atRemainder entry.codeAddress r)) m
        (after (effects trap is) m) := by
  have hn := displaced_eq entry T
  have hlen : is.length = displaced entry T := hdec.length_eq
  apply reaches_block Machine.cia 4
  . unfold effects
    rw [← List.map_dropLast]
    apply cia_effects trap htrap _ hseq
  . intro k f hf t ht
    unfold effects at hf
    rw [List.getElem?_map, Option.map_eq_some_iff] at hf
    obtain ⟨i, hi, rfl⟩ := hf
    obtain ⟨w, hw, hdecode⟩ := hdec.getElem? k i hi
    have hk := (List.getElem?_eq_some_iff.mp hi).choose
    rw [hm] at ht
    constructor
    . apply b.not_atRemainder _ _ t ht
      rw [BitVec.add_comm, BitVec.add_sub_cancel, BitVec.toNat_ofNat]
      omega
    . apply step_of_emitted trap sem _ _ w i t _ hdecode
      rw [ht]
      apply b.slotAt_window k w hw

theorem Built.reaches_code (start : Nat) (ws : List Instruction) (is : List Insn) (hdec : Decodes ws is)
    (hcode : ∀ k w, ws[k]? = some w → (code entry T resumed)[start + k]? = some w)
    (hwhere : start + ws.length ≤ 49 ∨ 49 + displaced entry T ≤ start)
    (haway : ∀ k < ws.length, Away entry T (start + k))
    (hseq : ∀ i ∈ is.dropLast, i.isBranch = false) (m : Machine ρ) (hm : m.cia = codeAddr T start)
    : Reaches (go (step trap sem entry.codeAddress r) (atRemainder entry.codeAddress r)) m
        (after (effects trap is) m) := by
  apply reaches_block Machine.cia 4
  . unfold effects
    rw [← List.map_dropLast]
    apply cia_effects trap htrap _ hseq
  . intro k f hf t ht
    unfold effects at hf
    rw [List.getElem?_map, Option.map_eq_some_iff] at hf
    obtain ⟨i, hi, rfl⟩ := hf
    obtain ⟨w, hw, hdecode⟩ := hdec.getElem? k i hi
    have hk := (List.getElem?_eq_some_iff.mp hw).choose
    have hfar := haway k hk
    unfold Away at hfar
    rw [hm, codeAddr_add] at ht
    constructor
    . apply b.not_atRemainder _ _ t ht
      omega
    . apply step_of_emitted trap sem _ _ w i t _ hdecode
      rw [ht, b.slotAt_code (start + k) w (hcode k w hw) (by omega), if_neg (by omega)]

omit htrap in
theorem Built.reaches_resumed (trap : Machine ρ → Machine ρ) {sp : BitVec 64} {m t : Machine ρ}
    (halike : AlikeAlong sp (resumed.map sem) t) (hagree : Agree sp m t)
    (haway : ∀ k < displaced entry T, Away entry T (49 + k)) (hm : m.cia = codeAddr T 49)
    : Reaches (go (step trap sem entry.codeAddress r) (atRemainder entry.codeAddress r)) m
        (after (resumed.map sem) m) := by
  have hlen := b.length_resumed
  apply reaches_after
  intro k f hf
  have hk := (List.getElem?_eq_some_iff.mp hf).choose
  obtain ⟨-, hcia⟩ := halike.after_take hagree (Nat.le_of_lt hk)
  rw [hm, codeAddr_add] at hcia
  rw [List.getElem?_map, Option.map_eq_some_iff] at hf
  obtain ⟨w, hw, heq⟩ := hf
  rw [List.length_map] at hk
  have hfar := haway k (by omega)
  unfold Away at hfar
  have hcode := getElem?_code_resumed entry T resumed k w hw
  constructor
  . apply b.not_atRemainder _ _ _ hcia
    omega
  . have hslot := b.slotAt_code (49 + k) w hcode (by omega)
    rw [if_pos (by omega)] at hslot
    unfold step
    rw [hcia, hslot, ← heq]

end Blocks

end Ps3patch
end ElfCraft
