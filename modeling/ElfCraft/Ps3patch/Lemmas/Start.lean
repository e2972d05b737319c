import ElfCraft.Ps3patch.Lemmas.Probe
import ElfCraft.Ps3patch.Lemmas.Restore

/-!
This module contains the start of the patched program as a processor sees it that fetches its instructions from
the loaded output: it gets behind the window in the state in which the loaded input gets there.
-/

namespace ElfCraft
namespace Ps3patch

open Binary Elf ElfFile Ppc Exec detail StateTransition

/--
One step of the program that is loaded from `file`. The words outside of the decoded forms mean `other`.
-/
def fetchStep {ρ : Type} (trap : Machine ρ → Machine ρ) (other : Instruction → Machine ρ → Machine ρ)
    (file : Ps3ElfFile) (m : Machine ρ) : Option (Machine ρ) :=
  (fetchAt file m.cia.toNat).map fun w => execWord trap other w m

def Slot.word (slot : Slot) : Instruction :=
  match slot with
  | .emitted w => w
  | .displaced w => w

/-
The processor finds the slots of the patched program in the output.
-/

theorem slice_of_wordAt {bytes : List Byte} {offset : BitVec 64} {w : Instruction}
    (h : wordAt bytes offset = some w)
    : offset.toNat + 4 ≤ bytes.length ∧ slice bytes offset.toNat 4 = toBigEndianBytes [w] := by
  unfold wordAt at h
  split at h
  . next hin =>
    refine ⟨hin.right, ?_⟩
    have hlen := length_slice bytes _ _ hin.right
    have hread : readInstructions (slice bytes offset.toNat 4) 1 = [w] := by
      apply List.ext_getElem?
      intro i
      cases i with
      | zero => rw [h]; rfl
      | succ i => rw [List.getElem?_eq_none (by simp), List.getElem?_eq_none (by simp)]
    rw [← hread, toBigEndianBytes_eq, readInstructions_eq]
    symm
    apply Codec.encodeAll_decodeAll
    rw [hlen]
    rfl
  . contradiction

theorem fetchAt_of_wordAt {file : Ps3ElfFile} {base offset : BitVec 64} {bytes : List Byte} {w : Instruction}
    (hbytes : ∀ i < bytes.length, file.byteAt (base + BitVec.ofNat 64 i) = bytes[i]?)
    (h : wordAt bytes offset = some w)
    : fetchAt file (base + offset).toNat = some w := by
  have ⟨hle, hslice⟩ := slice_of_wordAt h
  apply fetchAt_of_bytes
  intro j hj
  have hbyte := hbytes (offset.toNat + j) (by omega)
  rw [BitVec.ofNat_add, BitVec.ofNat_toNat, BitVec.setWidth_eq, ← BitVec.add_assoc] at hbyte
  rw [BitVec.ofNat_add, BitVec.ofNat_toNat, BitVec.setWidth_eq, hbyte, ← hslice, getElem?_slice, if_pos hj]

/--
The conditions on the addresses, on the TOC pointer and on the window: the program is mapped as a whole, nothing
of it is where the trampoline goes, one branch is enough for both of the jumps and the window has no branch.
-/
structure Startable (run : Run) : Prop where
  mappable : run.file.Mappable
  window : WindowClear run.file run.entry run.trampolineAddr
  free : ∀ i < run.tramp.blob.length, ∀ ph ∈ run.file.segments,
    ¬ ph.Contains (run.trampolineAddr.toNat + i)
  inside : ∀ j < run.tramp.entryPatchBytes.length,
    run.file.vaddrToFileOffset (run.entry.codeAddress + BitVec.ofNat 64 j)
      = .ok (run.entryOffset + BitVec.ofNat 64 j)
  jumpIn : Reaches (inDisp run.entry run.trampolineAddr)
  jumpBack : Reaches (backDisp run.entry run.trampolineAddr)
  toc : run.entry.tocValue.toNat < 2 ^ 31
  straight : ∀ w ∈ windowWords run, (classify w).kind = .NotABranch

namespace Patched

variable {bytes : Bytes} {path : List Byte} {run : Run} (p : Patched bytes path run)
variable (hstart : Startable run)
include p hstart

omit hstart in
theorem toNat_windowOffset {j : Nat} (hj : j < run.tramp.entryPatchBytes.length)
    : (run.entryOffset + BitVec.ofNat 64 j).toNat = run.entryOffset.toNat + j := by
  have hwindow := p.window
  have hlt := bytes.size_lt
  rw [BitVec.toNat_add, BitVec.toNat_ofNat]
  omega

theorem byteAt_window {j : Nat} (hj : j < run.tramp.entryPatchBytes.length)
    : (reparsed run).byteAt (run.entry.codeAddress + BitVec.ofNat 64 j) = run.tramp.entryPatchBytes[j]? := by
  have hslice := congrArg (fun bs => bs[j]?) (p.slice_outBytes_of_clear hstart.window)
  rw [getElem?_slice, if_pos hj] at hslice
  unfold byteAt
  rw [p.vaddrToFileOffset_reparsed _ _ (hstart.inside j hj)]
  dsimp only
  rw [p.toNat_windowOffset hj, ← hslice]
  rfl

theorem fetchAt_of_slotAt {addr : BitVec 64} {slot : Slot}
    (h : slotAt run.entry.codeAddress run.tramp addr = some slot)
    : fetchAt (reparsed run) addr.toNat = some slot.word := by
  have ⟨offset, originals, resumed, b⟩ := built_of_buildTrampoline _ _ _ _ _ p.built
  unfold slotAt at h
  split at h
  . next w hw =>
    have hfetch := fetchAt_of_wordAt (fun i hi => p.byteAt_window hstart hi) hw
    rw [BitVec.add_comm, BitVec.sub_add_cancel] at hfetch
    rw [← Option.some.inj h, hfetch]
    rfl
  . rw [b.addr_eq, Option.map_eq_some_iff] at h
    have ⟨w, hw, hslot⟩ := h
    have hblob (i : Nat) (hi : i < run.tramp.blob.length)
        : (reparsed run).byteAt (run.trampolineAddr.setWidth 64 + BitVec.ofNat 64 i) = run.tramp.blob[i]? := by
      rw [← p.byteAt_blob hstart.mappable hstart.window hi (hstart.free i hi), BitVec.ofNat_add,
        BitVec.ofNat_toNat]
    have hfetch := fetchAt_of_wordAt hblob hw
    rw [BitVec.add_comm, BitVec.sub_add_cancel] at hfetch
    rw [hfetch, ← hslot]
    split <;> rfl

/--
What the patched program does in the model of the hijack, the processor does with the loaded output.
-/
theorem fetchStep_of_step {ρ : Type} (trap : Machine ρ → Machine ρ)
    (other : Instruction → Machine ρ → Machine ρ) (m m' : Machine ρ)
    (h : step trap (execWord trap other) run.entry.codeAddress run.tramp m = some m')
    : fetchStep trap other (reparsed run) m = some m' := by
  unfold step at h
  unfold fetchStep
  split at h
  . next w hslot =>
    rw [Option.map_eq_some_iff] at h
    have ⟨i, hi, hexec⟩ := h
    rw [p.fetchAt_of_slotAt hstart hslot, ← hexec, Option.map_some]
    show some (execWord trap other w m) = _
    unfold execWord
    rw [hi]
  . next w hslot =>
    rw [p.fetchAt_of_slotAt hstart hslot]
    exact h
  . contradiction

theorem near : Near run.entry run.trampolineAddr := by
  have ⟨offset, originals, resumed, b⟩ := built_of_buildTrampoline _ _ _ _ _ p.built
  have hentry := codeAddress_lt p.entry
  have hmod := pickTrampolineAddr_mod run.file
  have hT := run.trampolineAddr.isLt
  rw [← p.addr] at hmod
  have hcount := displaced_of_reaches _ _ hstart.jumpIn
  have hlen := b.length_entryPatchBytes
  have hblob : 212 ≤ run.tramp.blob.length := by
    have hm := b.blobLayout.jumpBack_count
    have hwords := b.blobLayout.words_length
    have ⟨pad, _, hblob⟩ := b.blobLayout.blob_eq
    rw [hblob]
    simp only [List.length_append, length_toBigEndianBytes]
    show 212 ≤ 8 + _ + _ + _ + _
    omega
  constructor
  . exact hstart.jumpIn
  . exact hstart.jumpBack
  . omega
  . have hfirst := hstart.inside 0 (by omega)
    rw [BitVec.add_zero, vaddrToFileOffset_eq_ok_iff_place] at hfirst
    have ⟨ph, hph, _⟩ := hfirst
    have ⟨hmem, hcontains, _⟩ := firstMatch_spec _ _ _ hph
    cases Nat.lt_or_ge run.entry.codeAddress.toNat run.trampolineAddr.toNat with
    | inl hlt => exact .inl (by omega)
    | inr hge =>
      right
      apply Decidable.by_contra
      intro hin
      apply hstart.free (run.entry.codeAddress.toNat - run.trampolineAddr.toNat) (by omega) ph hmem
      rw [Nat.add_sub_cancel' hge]
      exact hcontains
  . left
    exact hstart.toc

omit hstart in
theorem windowWords_eq {offset : BitVec 64} {originals resumed : List Instruction}
    (b : Built run.file run.entry run.trampolineAddr path run.tramp offset originals resumed)
    : windowWords run = originals := by
  have hlookup := b.offset
  rw [p.lookup, Except.ok.injEq] at hlookup
  rw [b.originals_eq, ← hlookup]
  unfold windowWords
  rw [b.length_entryPatchBytes, b.count_eq]

theorem built_start
    : ∃ offset, Built run.file run.entry run.trampolineAddr path run.tramp offset (windowWords run)
        (windowWords run) := by
  have ⟨offset, originals, resumed, b⟩ := built_of_buildTrampoline _ _ _ _ _ p.built
  have horiginals := p.windowWords_eq b
  have hstraight := hstart.straight
  rw [horiginals] at hstraight ⊢
  have hresumed := b.resumed_eq hstraight
  rw [hresumed] at b
  exact ⟨offset, b⟩

theorem fetchAt_file {w : Instruction} (hw : windowWords run = [w])
    : fetchAt run.file run.entry.codeAddress.toNat = some w := by
  have hbytes := p.toBigEndianBytes_windowWords
  have hlen := p.length_windowWords
  have hfile : run.file.raw = bytes := by
    rw [p.file]
    rfl
  rw [hw] at hbytes hlen
  have hword : wordAt (toBigEndianBytes [w]) 0 = some w := by
    have happend := wordAt_append [] [] [w] 0 w rfl rfl 0 rfl
    rw [List.nil_append, List.append_nil] at happend
    exact happend
  rw [← BitVec.add_zero run.entry.codeAddress]
  apply fetchAt_of_wordAt _ hword
  intro i hi
  rw [hlen] at hi
  unfold byteAt
  rw [hstart.inside i hi]
  dsimp only
  rw [p.toNat_windowOffset hi, hfile, hbytes, getElem?_slice, if_pos hi]

section Runs

variable {ρ : Type} (trap : Machine ρ → Machine ρ) (other : Instruction → Machine ρ → Machine ρ)
variable (m : Machine ρ) (hcia : m.cia = run.entry.codeAddress)
variable (hwindow : AlikeAlong (m.gpr 1) ((windowWords run).map (execWord trap other))
  (m.setGpr 2 run.entry.tocValue))
include hcia hwindow

/--
The output gets behind the window, and the state there is the one behind the displaced words up to the memory
below the stack pointer.
-/
theorem until_reparsed (htrap : KeepsCallers trap)
    : ∃ m', Until (fetchStep trap other (reparsed run)) (atRemainder run.entry.codeAddress run.tramp) m m'
        ∧ Agree (m.gpr 1) m'
            (runOriginal (execWord trap other) (windowWords run) (m.setGpr 2 run.entry.tocValue)) := by
  have n := p.near hstart
  have ⟨offset, b⟩ := p.built_start hstart
  have hn := displaced_of_reaches _ _ n.jumpIn
  have htoc := (loadedImmediate_setWidth_eq_iff run.entry.tocValue).mpr n.toc
  rw [← htoc] at hwindow
  have ⟨s, hreach, hs, hagree⟩ := b.arrives (execWord trap other) htrap n.jumpIn (add_inDisp _ _ n.page)
    (fun k hk => away_of_near _ _ n k (by omega)) m hwindow hcia
  have hback := b.reaches_back_near (execWord trap other) htrap hn n.jumpBack
    (away_of_near _ _ n 50 (by omega)) s hs
  rw [add_backDisp _ _ n.page n.jumpIn n.jumpBack] at hback
  rw [htoc] at hagree
  have hrun : Until (step trap (execWord trap other) run.entry.codeAddress run.tramp)
      (atRemainder run.entry.codeAddress run.tramp) m
      { s with cia := run.entry.codeAddress + BitVec.ofNat 64 (4 * 1) } := by
    refine ⟨hreach.trans hback, ?_⟩
    show run.entry.codeAddress + BitVec.ofNat 64 (4 * 1) = _
    rw [b.remainder_eq, hn]
  refine ⟨_, hrun.mono (p.fetchStep_of_step hstart trap other), ?_⟩
  exact ⟨hagree.gpr, hagree.lr, hagree.ctr, hagree.cr, hagree.rest, hagree.mem⟩

/--
The input runs the words of the window where they are.
-/
theorem until_file
    : Until (fetchStep trap other run.file) (atRemainder run.entry.codeAddress run.tramp)
        (m.setGpr 2 run.entry.tocValue)
        (runOriginal (execWord trap other) (windowWords run) (m.setGpr 2 run.entry.tocValue)) := by
  have ⟨offset, b⟩ := p.built_start hstart
  have hlen := b.length_originals
  rw [displaced_of_reaches _ _ hstart.jumpIn] at hlen
  have ⟨w, hw⟩ := List.length_eq_one_iff.mp hlen
  have hremainder := b.remainder_eq
  rw [displaced_of_reaches _ _ hstart.jumpIn] at hremainder
  rw [hw, List.map_singleton, alikeAlong_cons_iff] at hwindow
  have hnext := hwindow.left.next _ (.refl _)
  have hsame : (m.setGpr 2 run.entry.tocValue).cia = run.entry.codeAddress := hcia
  rw [hw]
  show Until _ _ _ (execWord trap other w (m.setGpr 2 run.entry.tocValue))
  constructor
  . apply Relation.ReflTransGen.single
    rw [mem_go_iff]
    constructor
    . apply b.not_atRemainder run.entry.codeAddress _ _ hsame
      rw [BitVec.sub_self, displaced_of_reaches _ _ hstart.jumpIn]
      decide
    . unfold fetchStep
      rw [hsame, p.fetchAt_file hstart hw]
      rfl
  . show (execWord trap other w (m.setGpr 2 run.entry.tocValue)).cia = _
    rw [hnext, hsame, hremainder]
    rfl

end Runs

end Patched

/--
Loaded and started at the entry point, the output gets behind the window like the input that is started with the
TOC pointer of its descriptor in `r2`: all registers are the same there, and so is the memory up to what is
below the stack pointer.
-/
theorem patch_start (inputPath : String) (bytes : Bytes) (path : List Byte) (run : Run)
    (h : patch inputPath bytes path = .ok run) (htame : Tame bytes) (hstart : Startable run)
    : ∃ file, parseAny run.outBytes = .ok (.be64 file)
        ∧ ∀ (ρ : Type) (trap : Machine ρ → Machine ρ) (other : Instruction → Machine ρ → Machine ρ)
            (m : Machine ρ), KeepsCallers trap →
            AlikeAlong (m.gpr 1) ((windowWords run).map (execWord trap other))
              (m.setGpr 2 run.entry.tocValue) →
            m.cia = run.entry.codeAddress →
            ∃ m' m'', Until (fetchStep trap other file) (atRemainder run.entry.codeAddress run.tramp) m m'
              ∧ Until (fetchStep trap other run.file) (atRemainder run.entry.codeAddress run.tramp)
                  (m.setGpr 2 run.entry.tocValue) m''
              ∧ Agree (m.gpr 1) m' m'' := by
  have p := patched_of_patch inputPath bytes path run h
  have ⟨hsections, hcount⟩ := p.tame htame
  refine ⟨_, p.parseAny_outBytes hsections hcount, ?_⟩
  intro ρ trap other m htrap hwindow hcia
  have ⟨m', hout, hagree⟩ := p.until_reparsed hstart trap other m hcia hwindow htrap
  exact ⟨m', _, hout, p.until_file hstart trap other m hcia hwindow, hagree⟩

section Examples

theorem startable_plainSample {path : List Byte} {run : Run} (p : Patched plainSample path run)
    : Startable run := by
  have ⟨offset, originals, resumed, b⟩ := built_of_buildTrampoline _ _ _ _ _ p.built
  have ⟨hfile, hentry, haddr⟩ := p.plainSample_eq
  have hlookup : (fileOf true .Big plainSample).vaddrToFileOffset 0x10080 = .ok 0x80 := by
    decide +kernel
  have hoffset := p.lookup
  rw [hfile, hentry, hlookup, Except.ok.injEq] at hoffset
  have hcount : displaced ⟨0x10080, 0x30000, 0⟩ 0x20000 = 1 := by
    decide +kernel
  constructor
  . rw [hfile]
    apply mappable_plainSample
  . apply windowClear_plainSample p
  . rw [hfile, haddr]
    intro i _ ph hph hcontains
    have hend : ∀ ph ∈ (fileOf true .Big plainSample).segments, ph.fileEnd ≤ 0x20000 := by
      decide +kernel
    have hlt : 0x20000 + i < ph.fileEnd := hcontains.right.right
    have hle := hend ph hph
    omega
  . rw [b.length_entryPatchBytes, hfile, hentry, haddr, hcount, ← hoffset]
    decide +kernel
  . rw [hentry, haddr]
    decide +kernel
  . rw [hentry, haddr]
    decide +kernel
  . rw [hentry]
    decide
  . rw [windowWords_plainSample p]
    intro w hw
    rw [List.mem_singleton] at hw
    rw [hw]
    decide

-- `nop`
theorem alikeAlong_plainSample {path : List Byte} {run : Run} (p : Patched plainSample path run) {ρ : Type}
    {trap : Machine ρ → Machine ρ} (htrap : ∀ m, (trap m).cia = m.cia + 4)
    (other : Instruction → Machine ρ → Machine ρ) (sp : BitVec 64) (t : Machine ρ)
    : AlikeAlong sp ((windowWords run).map (execWord trap other)) t := by
  have hdecode : decode 0x60000000 = some (.ori 0 0 0) := by
    decide
  rw [windowWords_plainSample p]
  apply alikeAlong_of_decode htrap other hdecode rfl (by decide)
  intro ea hea
  contradiction

theorem patch_start_plainSample
    : ∃ run file m' m'', patch "EBOOT.elf" plainSample [0x61] = .ok run
        ∧ parseAny run.outBytes = .ok (.be64 file)
        ∧ Until (fetchStep probeTrap probeSem file) (atRemainder 0x10080 run.tramp) (probe run.entry 0) m'
        ∧ Until (fetchStep probeTrap probeSem run.file) (atRemainder 0x10080 run.tramp)
            ((probe run.entry 0).setGpr 2 0x30000) m''
        ∧ Agree ((probe run.entry 0).gpr 1) m' m'' := by
  have ⟨run, hrun⟩ := exists_ok_of_isOk isOk_patch_plainSample
  have p := patched_of_patch _ _ _ _ hrun
  have ⟨_, hentry, _⟩ := p.plainSample_eq
  have ⟨file, hparse, hfile⟩ := patch_start _ _ _ _ hrun tame_plainSample (startable_plainSample p)
  have ⟨m', m'', hout, hin, hagree⟩ := hfile Unit probeTrap probeSem (probe run.entry 0)
    keepsCallers_probeTrap (alikeAlong_plainSample p keepsCallers_probeTrap.returns probeSem _ _) rfl
  rw [hentry] at hout hin hagree
  refine ⟨run, file, m', m'', hrun, hparse, ?_⟩
  rw [hentry]
  exact ⟨hout, hin, hagree⟩

end Examples

end Ps3patch
end ElfCraft
