import ElfCraft.Elf.Lemmas.Translate
import ElfCraft.Ps3patch.Lemmas.Hijack
import ElfCraft.Ps3patch.Lemmas.Patch
import ElfCraft.Ps3patch.Lemmas.Relocate

/-!
This module contains the window at the entry point, the words that the jump overwrites: where the copies
of its branches go and which segment its addresses belong to.
-/

namespace ElfCraft
namespace Ps3patch

open Binary Elf ElfFile Ppc detail

-- The copy of the `i`-th displaced word.
def copyOf (r : TrampolineResult) (i : Nat) : Option Instruction :=
  wordAt r.blob (BitVec.ofNat 64 (resumeOffset + i * 4))

def copyAddr (r : TrampolineResult) (i : Nat) : BitVec 32 :=
  r.trampolineAddr + BitVec.ofNat 32 (resumeOffset + i * 4)

-- The addresses of the `count` words that the entry point starts with.
def InWindow (entry : EntryDescriptor) (count : Nat) (addr : BitVec 32) : Prop :=
  (addr - entry.codeAddress.setWidth 32).toNat < 4 * count

instance (entry : EntryDescriptor) (count : Nat) (addr : BitVec 32)
    : Decidable (InWindow entry count addr) :=
  inferInstanceAs (Decidable (_ < _))

theorem copyAddr_eq (r : TrampolineResult) (i : Nat)
    : copyAddr r i = wordAddr (resumeBase r.trampolineAddr) i := by
  have hresume : resumeOffset = 8 + 49 * 4 := by
    rfl
  unfold copyAddr wordAddr resumeBase codeBase
  rw [hresume, BitVec.ofNat_add, BitVec.ofNat_add, ← BitVec.add_assoc, ← BitVec.add_assoc]
  rfl

namespace Built

variable {file : Ps3ElfFile} {entry : EntryDescriptor} {T : BitVec 32} {path : List Byte}
variable {r : TrampolineResult} {entryOffset : BitVec 64} {originals resumed : List Instruction}
variable (b : Built file entry T path r entryOffset originals resumed)
include b

theorem copyOf_eq (i : Nat) (w : Instruction) (h : resumed[i]? = some w) : copyOf r i = some w := by
  obtain ⟨pad, -, hblob⟩ := b.blobLayout.blob_eq
  have hi := (List.getElem?_eq_some_iff.mp h).choose
  have hn := displaced_eq entry T
  have hlen := b.length_resumed
  have hcode := getElem?_code_resumed entry T resumed i w h
  unfold copyOf
  rw [hblob, List.append_assoc, List.append_assoc]
  apply wordAt_append TRAMPOLINE_MAGIC _ _ (49 + i) w hcode rfl
  have hresume : resumeOffset = 8 + 49 * 4 := by
    rfl
  show _ = 8 + _
  rw [hresume, BitVec.toNat_ofNat]
  omega

theorem copyOf_original (i : Nat) (w : Instruction) (h : originals[i]? = some w)
    : Relocatable w (wordAddr (entryAddr entry) i) (copyAddr r i)
        ∧ copyOf r i = some (relocatedWord w (wordAddr (entryAddr entry) i) (copyAddr r i)) := by
  have hreloc := b.relocated
  rw [relocateDisplacedInstructions_eq_ok_iff] at hreloc
  obtain ⟨hall, hresumed⟩ := hreloc
  rw [copyAddr_eq, b.addr_eq]
  constructor
  . exact hall i w h
  . apply b.copyOf_eq
    rw [hresumed, List.getElem?_mapIdx, h]
    rfl

end Built

/--
No copy of a branch goes into the window exactly when no displaced branch does.
-/
theorem buildTrampoline_window_iff (file : Ps3ElfFile) (entry : EntryDescriptor) (T : BitVec 32)
    (path : List Byte) (r : TrampolineResult) (originals : List Instruction)
    (h : buildTrampoline file entry T path = .ok r)
    (horiginals : displacedWindow file entry (displaced entry T) = .ok originals)
    : (∀ i w w', originals[i]? = some w → copyOf r i = some w' → (classify w).kind = .DirectRelative →
        ¬ InWindow entry r.displacedInstructionCount (copyAddr r i + (classify w').displacement))
        ↔
      ∀ i w, originals[i]? = some w → (classify w).kind = .DirectRelative →
        ¬ InWindow entry (displaced entry T)
          (wordAddr (entry.codeAddress.setWidth 32) i + (classify w).displacement) := by
  obtain ⟨entryOffset, originals', resumed, b⟩ := built_of_buildTrampoline _ _ _ _ _ h
  rw [← b.count_eq, b.displacedWindow_eq, Except.ok.injEq] at horiginals
  subst horiginals
  rw [b.count_eq]
  have htarget (i : Nat) (w : Instruction) (hw : originals'[i]? = some w)
      (hkind : (classify w).kind = .DirectRelative)
      : ∃ w', copyOf r i = some w' ∧ copyAddr r i + (classify w').displacement
          = wordAddr (entry.codeAddress.setWidth 32) i + (classify w).displacement := by
    obtain ⟨hfits, hcopy⟩ := b.copyOf_original i w hw
    exact ⟨_, hcopy, (keepsTarget_relocatedWord w _ _ hkind hfits).target⟩
  constructor
  . intro hcopies i w hw hkind
    obtain ⟨w', hcopy, heq⟩ := htarget i w hw hkind
    rw [← heq]
    exact hcopies i w w' hw hcopy hkind
  . intro hbranches i w w' hw hcopy hkind
    obtain ⟨w'', hcopy', heq⟩ := htarget i w hw hkind
    rw [hcopy, Option.some.injEq] at hcopy'
    rw [hcopy', heq]
    exact hbranches i w hw hkind

section Examples

-- The executable with another first instruction.
def startSample (w : Instruction) : Bytes :=
  (plainSample.write 0x80 (toBigEndianBytes [w])).getD plainSample

-- `b .+0x100`
theorem buildTrampoline_window_startSample
    : ∃ r, buildTrampoline (fileOf true .Big (startSample 0x48000100)) ⟨0x10080, 0x30000, 0⟩ 0x20000 [0x61]
          = .ok r
        ∧ ∀ i w w', [0x48000100#32][i]? = some w → copyOf r i = some w' →
          (classify w).kind = .DirectRelative →
          ¬ InWindow ⟨0x10080, 0x30000, 0⟩ r.displacedInstructionCount
            (copyAddr r i + (classify w').displacement) := by
  have hok : (buildTrampoline (fileOf true .Big (startSample 0x48000100)) ⟨0x10080, 0x30000, 0⟩ 0x20000
      [0x61]).isOk = true := by
    decide +kernel
  have horiginals : displacedWindow (fileOf true .Big (startSample 0x48000100)) ⟨0x10080, 0x30000, 0⟩
      (displaced ⟨0x10080, 0x30000, 0⟩ 0x20000) = .ok [0x48000100#32] := by
    decide +kernel
  obtain ⟨r, hr⟩ := exists_ok_of_isOk hok
  refine ⟨r, hr, ?_⟩
  apply (buildTrampoline_window_iff _ _ _ _ _ _ hr horiginals).mpr
  intro i w hw _
  obtain ⟨hi, hw⟩ := List.getElem?_eq_some_iff.mp hw
  rw [List.length_singleton] at hi
  have hzero : i = 0 := by omega
  subst hzero
  replace hw : 0x48000100#32 = w := hw
  rw [← hw]
  decide +kernel

/--
`b .`, the copy of it goes to the jump that overwrote it.
-/
theorem buildTrampoline_window_loop
    : ∃ r, buildTrampoline (fileOf true .Big (startSample 0x48000000)) ⟨0x10080, 0x30000, 0⟩ 0x20000 [0x61]
          = .ok r
        ∧ displacedWindow (fileOf true .Big (startSample 0x48000000)) ⟨0x10080, 0x30000, 0⟩
            r.displacedInstructionCount = .ok [0x48000000]
        ∧ ∃ w', copyOf r 0 = some w' ∧ (classify w').kind = .DirectRelative
          ∧ InWindow ⟨0x10080, 0x30000, 0⟩ r.displacedInstructionCount
            (copyAddr r 0 + (classify w').displacement) := by
  have hloop : ((buildTrampoline (fileOf true .Big (startSample 0x48000000)) ⟨0x10080, 0x30000, 0⟩ 0x20000
      [0x61]).toOption.map fun r =>
        (displacedWindow (fileOf true .Big (startSample 0x48000000)) ⟨0x10080, 0x30000, 0⟩
          r.displacedInstructionCount, copyOf r 0, copyAddr r 0, r.displacedInstructionCount))
        = some (.ok [0x48000000], some 0x4BFEFFB4, 0x200CC, 1) := by
    decide +kernel
  have hok : (buildTrampoline (fileOf true .Big (startSample 0x48000000)) ⟨0x10080, 0x30000, 0⟩ 0x20000
      [0x61]).isOk = true := by
    decide +kernel
  obtain ⟨r, hr⟩ := exists_ok_of_isOk hok
  rw [hr, Except.toOption, Option.map_some, Option.some.injEq] at hloop
  simp only [Prod.mk.injEq] at hloop
  obtain ⟨hwindow, hcopy, haddr, hcount⟩ := hloop
  refine ⟨r, hr, hwindow, 0x4BFEFFB4, hcopy, ?_, ?_⟩
  . decide
  . rw [haddr, hcount]
    decide

end Examples

end Ps3patch
end ElfCraft
