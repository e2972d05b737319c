import ElfCraft.Ps3patch.Lemmas.Relocate
import ElfCraft.Ps3patch.Lemmas.Trampoline

/-!
This module contains the inputs that the builder of the trampoline refuses: every exit in front of the
last one is taken for an input that could not be patched, none of them for a mistake of its own.
-/

namespace ElfCraft
namespace Ps3patch

open Binary Elf ElfFile Ppc detail

/--
How many words the jump from the entry point to the code of a trampoline at `T` displaces.
-/
def windowSize (entry : EntryDescriptor) (T : BitVec 32) : Nat :=
  if Reaches (jumpDisp (entry.codeAddress.setWidth 32) (T + 8)) then 1 else 5

theorem displaced_eq_windowSize (entry : EntryDescriptor) (T : BitVec 32)
    : displaced entry T = windowSize entry T := by
  unfold displaced jumpIn
  rw [makeMinimalJump_eq, apply_ite List.length, List.length_singleton, length_makeAbsoluteJump]
  rfl

/--
What an input has to be like for a trampoline.
-/
structure Patchable (file : Ps3ElfFile) (entry : EntryDescriptor) (T : BitVec 32) (path : List Byte)
    : Prop where
  path_ne : path ≠ []
  path_le : path.length ≤ 1023
  addr_aligned : T.toNat % 4 = 0
  code_aligned : entry.codeAddress.toNat % 4 = 0
  fresh : isAlreadyPatched file = false
  window : ∃ offset bytes relocated, file.vaddrToFileOffset entry.codeAddress = .ok offset
    ∧ file.readAt offset (BitVec.ofNat 64 (4 * windowSize entry T)) = .ok bytes
    ∧ relocateDisplacedInstructions (readInstructions bytes (windowSize entry T))
        (entry.codeAddress.setWidth 32) (T + 8 + BitVec.ofNat 32 (4 * 49)) = .ok relocated

section Refuse

variable {file : Ps3ElfFile} {entry : EntryDescriptor} {T : BitVec 32} {path : List Byte}

theorem Built.patchable {r : TrampolineResult} {entryOffset : BitVec 64}
    {originals resumed : List Instruction} (b : Built file entry T path r entryOffset originals resumed)
    : Patchable file entry T path := by
  have hn := displaced_eq entry T
  constructor
  . exact b.path_ne
  . exact b.path_le
  . exact b.addr_aligned
  . exact b.code_aligned
  . exact b.fresh
  . rw [← displaced_eq_windowSize]
    refine ⟨entryOffset, slice file.raw.toList entryOffset.toNat (4 * displaced entry T), resumed, b.offset,
      ?_, ?_⟩
    . rw [readAt_eq_ok_iff _ _ _ _ (by omega), Nat.mul_comm]
      exact ⟨b.fits, rfl⟩
    . rw [Nat.mul_comm, ← b.originals_eq]
      exact b.relocated

-- The size that the layout was planned with.
theorem length_code_of_relocated {bytes : List Byte} {relocated : List Instruction}
    (h : relocateDisplacedInstructions (readInstructions bytes (displaced entry T)) (entryAddr entry)
      (resumeBase T) = .ok relocated)
    : (code entry T relocated).length
        =
      fixedPrefixInstrCount + displaced entry T + (jumpBack entry T).length := by
  have hlen := length_relocateDisplacedInstructions _ _ _ _ h
  rw [length_readInstructions] at hlen
  rw [length_code, hlen]
  rfl

theorem buildTrampoline_of_patchable (p : Patchable file entry T path)
    : ∃ r, buildTrampoline file entry T path = .ok r := by
  obtain ⟨offset, bytes, relocated, hoffset, hread, hreloc⟩ := p.window
  rw [← displaced_eq_windowSize] at hread hreloc
  rw [Nat.mul_comm] at hread
  unfold buildTrampoline
  rw [if_neg p.path_ne, if_neg (show ¬ path.length > kMaxPathLength from Nat.not_lt_of_le p.path_le),
    if_neg (not_not_intro p.addr_aligned), if_neg (not_not_intro p.code_aligned), if_neg (by rw [p.fresh]; decide)]
  dsimp only
  rw [hoffset]
  dsimp only
  split
  . next e herr => exact nomatch hread.symm.trans herr
  . next bytes' hok =>
    rw [← Except.ok.inj (hread.symm.trans hok)]
    split
    . next e herr => exact nomatch hreloc.symm.trans herr
    . next relocated' hok' =>
      rw [if_neg (by rw [length_makeLoadAndStartModule]; decide), buildPrologue_eq, buildEpilogue_eq]
      dsimp only
      split
      . next hne => exact absurd (length_code_of_relocated hok') hne
      . exact ⟨_, rfl⟩

theorem returned {code : ErrorCode} (message : String) (h : code ≠ .Unsupported)
    : ∃ e, Failure.error (.make code message) = .error e ∧ e.code ≠ .Unsupported := by
  exact ⟨_, rfl, h⟩

-- One case for each exit, in the order of the source.
theorem code_of_buildTrampoline_eq_error {failure : Failure}
    (h : buildTrampoline file entry T path = .error failure)
    : ∃ e, failure = .error e ∧ e.code ≠ .Unsupported := by
  unfold buildTrampoline at h
  simp only [ite_error_eq_error_iff] at h
  rcases h with ⟨-, rfl⟩ | ⟨-, ⟨-, rfl⟩ | ⟨-, ⟨-, rfl⟩ | ⟨-, ⟨-, rfl⟩ | ⟨-, ⟨-, rfl⟩ | ⟨-, h⟩⟩⟩⟩⟩
  . apply returned _ (by decide)
  . apply returned _ (by decide)
  . apply returned _ (by decide)
  . apply returned _ (by decide)
  . apply returned _ (by decide)
  split at h
  . rw [← Except.error.inj h]
    apply returned _ (by decide)
  . split at h
    . rw [← Except.error.inj h]
      apply returned _ (by decide)
    . split at h
      . next e hreloc =>
        refine ⟨e, (Except.error.inj h).symm, ?_⟩
        rw [relocateDisplacedInstructions.code_of_go_eq_error _ _ 0 _ e hreloc]
        decide
      . next relocated hreloc =>
        -- Only the two inconsistencies and the exceptions of the encoders are left.
        rw [if_neg (by rw [length_makeLoadAndStartModule]; decide), buildPrologue_eq, buildEpilogue_eq] at h
        dsimp only at h
        split at h
        . next hne => exact absurd (length_code_of_relocated hreloc) hne
        . contradiction

end Refuse

/--
The builder succeeds on the inputs that can be patched and on no others, what it returns else is an error
of the input: neither of its own consistency checks fails and no exception of an encoder gets out.
-/
theorem buildTrampoline_refuses_exactly (file : Ps3ElfFile) (entry : EntryDescriptor) (T : BitVec 32)
    (path : List Byte)
    : ((∃ r, buildTrampoline file entry T path = .ok r) ↔ Patchable file entry T path)
        ∧
      ∀ failure, buildTrampoline file entry T path = .error failure →
        ∃ e, failure = .error e ∧ e.code ≠ .Unsupported := by
  constructor
  . constructor
    . rintro ⟨r, hr⟩
      obtain ⟨entryOffset, originals, resumed, b⟩ := built_of_buildTrampoline file entry T path r hr
      apply b.patchable
    . intro p
      apply buildTrampoline_of_patchable p
  . intro failure h
    apply code_of_buildTrampoline_eq_error h

end Ps3patch
end ElfCraft
