import ElfCraft.Exec.Observed
import ElfCraft.Ps3patch.Lemmas.SaveRestore
import ElfCraft.Ps3patch.Lemmas.Start

/-!
This module contains what the kernel sees of the start of a patched program: the system calls that load and start
the module, once and in this order, and nothing else.
-/

namespace ElfCraft
namespace Ps3patch

open Binary Elf ElfFile Ppc Exec detail StateTransition

/--
The next instruction is a system call.
-/
def AtCall {ρ : Type} (file : Ps3ElfFile) (m : Machine ρ) : Prop :=
  (fetchAt file m.cia.toNat).bind decode = some .sc

instance {ρ : Type} (file : Ps3ElfFile) : DecidablePred (AtCall (ρ := ρ) file) := fun m =>
  inferInstanceAs (Decidable ((fetchAt file m.cia.toNat).bind decode = some .sc))

/--
The memory holds what is loaded from `file`.
-/
def LoadedFrom {ρ : Type} (file : Ps3ElfFile) (m : Machine ρ) : Prop :=
  ∀ addr b, file.byteAt addr = some b → m.mem addr = b

/--
The states in front of the calls that load the module at `path` and start what has been loaded.
-/
structure LoadsModule {ρ : Type} (path : List Byte) (trap : Machine ρ → Machine ρ) (m₁ m₂ : Machine ρ) : Prop where
  loadNumber : m₁.gpr 11 = SYS_PRX_LOAD_MODULE.setWidth 64
  loadPath : ∀ s, StringAt (fun a => some (m₁.mem (BitVec.ofNat 64 a))) 0 (m₁.gpr 3).toNat s ↔ s = path
  loadArgs : m₁.gpr 4 = 0 ∧ m₁.gpr 5 = 0
  startNumber : m₂.gpr 11 = SYS_PRX_START_MODULE.setWidth 64
  startId : m₂.gpr 3 = (trap m₁).gpr 3
  startArgs : ∀ (r : BitVec 5), 4 ≤ r → r ≤ 8 → m₂.gpr r = 0

theorem KeepsCallers.keepsFrame {ρ : Type} {trap : Machine ρ → Machine ρ} (h : KeepsCallers trap)
    : KeepsFrame trap := by
  constructor
  . intro m r hr
    exact (h.keeps m).gpr r hr
  . intro m addr haddr
    exact (h.keeps m).mem addr (.inl haddr)

theorem map_execWord_of_decodes {ρ : Type} (trap : Machine ρ → Machine ρ)
    (other : Instruction → Machine ρ → Machine ρ) {ws : List Instruction} {is : List Insn} (h : Decodes ws is)
    : ws.map (execWord trap other) = effects trap is := by
  apply List.ext_getElem?
  intro k
  unfold effects
  rw [List.getElem?_map, List.getElem?_map]
  cases hi : is[k]? with
  | none =>
    rw [List.getElem?_eq_none_iff, h.length_eq] at hi
    rw [List.getElem?_eq_none hi]
    rfl
  | some i =>
    have ⟨w, hw, hdecode⟩ := h.getElem? k i hi
    rw [hw, Option.map_some, Option.map_some, Option.some.injEq]
    funext m
    unfold execWord
    rw [hdecode]

theorem fetchStep_of_fetchAt {ρ : Type} (trap : Machine ρ → Machine ρ)
    (other : Instruction → Machine ρ → Machine ρ) {file : Ps3ElfFile} {m : Machine ρ} {w : Instruction}
    (hw : fetchAt file m.cia.toNat = some w)
    : fetchStep trap other file m = some (execWord trap other w m) := by
  unfold fetchStep
  rw [hw]
  rfl

/--
The two calls in the code.
-/
theorem code_eq (entry : EntryDescriptor) (T : BitVec 32) (resumed : List Instruction)
    : code entry T resumed
        =
      (prologue ++ loadArgs (pathBase entry T)) ++ [encodeSc] ++ startArgs ++ [encodeSc]
        ++ (epilogue ++ loadImmediate32 2 (entry.tocValue.setWidth 32) ++ resumed ++ jumpBack entry T) := by
  unfold code
  rw [makeLoadAndStartModule_eq]
  simp only [List.append_assoc]

-- Words that go on to the next one and are no system calls.
def Straight {ρ : Type} (trap : Machine ρ → Machine ρ) (other : Instruction → Machine ρ → Machine ρ)
    (ws : List Instruction) : Prop :=
  ∀ w ∈ ws, decode w ≠ some .sc ∧ ∀ m, (execWord trap other w m).cia = m.cia + 4

theorem straight_of_decodes {ρ : Type} {trap : Machine ρ → Machine ρ} (htrap : ∀ m, (trap m).cia = m.cia + 4)
    (other : Instruction → Machine ρ → Machine ρ) {ws : List Instruction} {is : List Insn} (h : Decodes ws is)
    (his : is.all (fun i => !i.isBranch && i != .sc) = true)
    : Straight trap other ws := by
  intro w hw
  have ⟨i, hi, hdecode⟩ := h.exists_mem hw
  have hstraight := List.all_eq_true.mp his i hi
  rw [Bool.and_eq_true, Bool.not_eq_true', bne_iff_ne] at hstraight
  constructor
  . rw [hdecode, ne_eq, Option.some.injEq]
    exact hstraight.right
  . intro m
    unfold execWord
    rw [hdecode]
    exact cia_exec trap htrap i hstraight.left m

/-
The blocks of the run.
-/

/--
A part of the run of the output without a system call.
-/
def Quietly {ρ : Type} (run : Run) (trap : Machine ρ → Machine ρ) (other : Instruction → Machine ρ → Machine ρ)
    (m m' : Machine ρ) : Prop :=
  Reaches (go (fetchStep trap other (Patched.reparsed run))
    fun m => AtCall (Patched.reparsed run) m ∨ atRemainder run.entry.codeAddress run.tramp m) m m'

-- The state in front of the first call.
def firstCall {ρ : Type} (run : Run) (trap : Machine ρ → Machine ρ) (m : Machine ρ) : Machine ρ :=
  after (effects trap (prologueInsns ++ loadArgsInsns (pathBase run.entry run.trampolineAddr)))
    { m with cia := codeAddr run.trampolineAddr 0 }

-- The state in front of the second call.
def secondCall {ρ : Type} (run : Run) (trap : Machine ρ → Machine ρ) (m : Machine ρ) : Machine ρ :=
  after (effects trap startArgsInsns) (trap (firstCall run trap m))

namespace Patched

variable {bytes : Bytes} {path : List Byte} {run : Run} (p : Patched bytes path run)
variable (hstart : Startable run)
include p hstart

theorem fetchAt_codeAddr {k : Nat} {w : Instruction}
    (hw : (code run.entry run.trampolineAddr (windowWords run))[k]? = some w)
    : fetchAt (reparsed run) (codeAddr run.trampolineAddr k).toNat = some w := by
  have ⟨offset, b⟩ := p.built_start hstart
  have hlayout := b.blobLayout
  have hlen := hlayout.words_length
  have hn := hlayout.displaced_count
  have hm := hlayout.jumpBack_count
  have hk := (List.getElem?_eq_some_iff.mp hw).choose
  rw [hlayout.displaced] at hlayout
  rw [Ps3patch.toNat_codeAddr _ _ (by omega)]
  apply p.fetchAt_code hstart.mappable hstart.window hstart.free hlayout hw

theorem not_atRemainder_code {k : Nat} {w : Instruction}
    (hw : (code run.entry run.trampolineAddr (windowWords run))[k]? = some w) {ρ : Type} (m : Machine ρ)
    (hm : m.cia = codeAddr run.trampolineAddr k)
    : ¬ atRemainder run.entry.codeAddress run.tramp m := by
  have ⟨offset, b⟩ := p.built_start hstart
  have n := p.near hstart
  have hn := displaced_of_reaches _ _ n.jumpIn
  have hlen := b.blobLayout.words_length
  have hback : (jumpBack run.entry run.trampolineAddr).length = 1 := by
    rw [jumpBack_eq _ _ hn, if_pos n.jumpBack]
    rfl
  have hk := (List.getElem?_eq_some_iff.mp hw).choose
  have haway := away_of_near _ _ n k (by omega)
  unfold Away at haway
  apply b.not_atRemainder _ _ m hm
  omega

section Runs

variable {ρ : Type} (trap : Machine ρ → Machine ρ) (other : Instruction → Machine ρ → Machine ρ)

/--
Straight code is run in one go.
-/
theorem reaches_straight (front : List Instruction) {ws back : List Instruction}
    (hcode : code run.entry run.trampolineAddr (windowWords run) = front ++ ws ++ back)
    (hws : Straight trap other ws) (m : Machine ρ) (hm : m.cia = codeAddr run.trampolineAddr front.length)
    : Quietly run trap other m (after (ws.map (execWord trap other)) m)
        ∧ (after (ws.map (execWord trap other)) m).cia = codeAddr run.trampolineAddr (front.length + ws.length) := by
  have hseq : ∀ f ∈ ws.map (execWord trap other), ∀ t, (f t).cia = t.cia + BitVec.ofNat 64 4 := by
    intro f hf t
    rw [List.mem_map] at hf
    have ⟨w, hw, heq⟩ := hf
    rw [← heq]
    exact (hws w hw).right t
  constructor
  . apply reaches_block Machine.cia 4
    . intro f hf
      exact hseq f (List.mem_of_mem_dropLast hf)
    . intro k f hf t ht
      rw [List.getElem?_map, Option.map_eq_some_iff] at hf
      have ⟨w, hw, heq⟩ := hf
      have hk := (List.getElem?_eq_some_iff.mp hw).choose
      have hword : (code run.entry run.trampolineAddr (windowWords run))[front.length + k]? = some w := by
        rw [hcode, List.append_assoc, List.getElem?_append_right (Nat.le_add_right _ _), Nat.add_sub_cancel_left,
          List.getElem?_append_left hk]
        exact hw
      rw [hm, codeAddr_add] at ht
      have hfetch := p.fetchAt_codeAddr hstart hword
      rw [← ht] at hfetch
      rw [← heq, not_or]
      refine ⟨⟨?_, p.not_atRemainder_code hstart hword t ht⟩, fetchStep_of_fetchAt trap other hfetch⟩
      unfold AtCall
      rw [hfetch]
      exact (hws w (List.mem_of_getElem? hw)).left
  . rw [pc_after Machine.cia 4 _ m hseq, hm, List.length_map]
    apply codeAddr_add

omit p hstart in
theorem reaches_branch {disp : Int} (hdisp : Reaches disp) {m : Machine ρ}
    (hfetch : fetchAt (reparsed run) m.cia.toNat = some (branchWord disp))
    (hstop : ¬ atRemainder run.entry.codeAddress run.tramp m)
    : Quietly run trap other m { m with cia := m.cia + BitVec.ofInt 64 disp } := by
  have heffect := congrArg (fun fs => after fs m) (map_execWord_of_decodes trap other (decodes_branchWord disp))
  rw [after_branchInsn trap hdisp] at heffect
  apply Relation.ReflTransGen.single
  rw [mem_go_iff, not_or, fetchStep_of_fetchAt trap other hfetch]
  refine ⟨⟨?_, hstop⟩, congrArg some heffect⟩
  unfold AtCall
  rw [hfetch]
  show decode (branchWord disp) ≠ _
  rw [decode_branchWord]
  simp

/--
A system call in the code is seen.
-/
theorem observed_call {k : Nat} (hcode : (code run.entry run.trampolineAddr (windowWords run))[k]? = some encodeSc)
    {m m' : Machine ρ} {seen : List (Machine ρ)} (hm : m.cia = codeAddr run.trampolineAddr k)
    (hrest : Observed (fetchStep trap other (reparsed run)) (AtCall (reparsed run))
      (atRemainder run.entry.codeAddress run.tramp) (trap m) seen m')
    : Observed (fetchStep trap other (reparsed run)) (AtCall (reparsed run))
        (atRemainder run.entry.codeAddress run.tramp) m (m :: seen) m' := by
  have hfetch := p.fetchAt_codeAddr hstart hcode
  have hsc : decode encodeSc = some .sc := by
    decide
  rw [← hm] at hfetch
  apply Observed.visible _ (trap m)
  . apply p.not_atRemainder_code hstart hcode m hm
  . unfold AtCall
    rw [hfetch]
    exact hsc
  . rw [fetchStep_of_fetchAt trap other hfetch]
    unfold execWord
    rw [hsc]
    rfl
  . exact hrest

section Blocks

variable (htrap : ∀ m, (trap m).cia = m.cia + 4) (m : Machine ρ)
include htrap

theorem quietly_firstCall (hcia : m.cia = run.entry.codeAddress)
    : Quietly run trap other m (firstCall run trap m)
        ∧ (firstCall run trap m).cia = codeAddr run.trampolineAddr 22 := by
  have ⟨offset, b⟩ := p.built_start hstart
  have n := p.near hstart
  have hn := displaced_of_reaches _ _ n.jumpIn
  have hcode := code_eq run.entry run.trampolineAddr (windowWords run)
  have hdecodes := decodes_prologue.append (decodes_loadArgs (pathBase run.entry run.trampolineAddr))
  have hslot := b.slotAt_window 0 (branchWord (inDisp run.entry run.trampolineAddr))
    (by rw [jumpIn_of_reaches _ _ n.jumpIn]; rfl)
  rw [Nat.mul_zero, BitVec.add_zero] at hslot
  have hfetch := p.fetchAt_of_slotAt hstart hslot
  rw [← hcia] at hfetch
  have hjump := reaches_branch trap other n.jumpIn hfetch (b.not_atRemainder run.entry.codeAddress
    (by rw [BitVec.sub_self, hn]; decide) m hcia)
  rw [hcia, add_inDisp _ _ n.page] at hjump
  have ⟨hreach, hend⟩ := p.reaches_straight hstart trap other [] (by
    rw [hcode]
    simp only [List.append_assoc, List.nil_append]
    rfl) (straight_of_decodes htrap other hdecodes rfl) { m with cia := codeAddr run.trampolineAddr 0 } rfl
  rw [map_execWord_of_decodes trap other hdecodes] at hreach hend
  exact ⟨hjump.trans hreach, hend⟩

theorem quietly_secondCall (hcia : (firstCall run trap m).cia = codeAddr run.trampolineAddr 22)
    : Quietly run trap other (trap (firstCall run trap m)) (secondCall run trap m)
        ∧ (secondCall run trap m).cia = codeAddr run.trampolineAddr 29 := by
  have hcode := code_eq run.entry run.trampolineAddr (windowWords run)
  have ⟨hreach, hend⟩ := p.reaches_straight hstart trap other
    (prologue ++ loadArgs (pathBase run.entry run.trampolineAddr) ++ [encodeSc]) (by
    rw [hcode]
    simp only [List.append_assoc]
    rfl) (straight_of_decodes htrap other decodes_startArgs rfl) (trap (firstCall run trap m)) (by
    rw [htrap, hcia]
    apply codeAddr_add _ 22 1)
  rw [map_execWord_of_decodes trap other decodes_startArgs] at hreach hend
  exact ⟨hreach, hend⟩

end Blocks

theorem quietly_word {k : Nat} {w : Instruction}
    (hw : (code run.entry run.trampolineAddr (windowWords run))[k]? = some w) (hsc : decode w ≠ some .sc)
    (s : Machine ρ) (hs : s.cia = codeAddr run.trampolineAddr k)
    : Quietly run trap other s (execWord trap other w s) := by
  have hfetch := p.fetchAt_codeAddr hstart hw
  rw [← hs] at hfetch
  apply Relation.ReflTransGen.single
  rw [mem_go_iff, not_or, fetchStep_of_fetchAt trap other hfetch]
  refine ⟨⟨?_, p.not_atRemainder_code hstart hw s hs⟩, rfl⟩
  unfold AtCall
  rw [hfetch]
  exact hsc

omit p hstart in
/--
The trampoline up to the displaced words.
-/
theorem restored_eq (m : Machine ρ)
    : after (effects trap (epilogueInsns ++ loadImmediateInsns 2 (run.entry.tocValue.setWidth 32)))
          (trap (secondCall run trap m))
        =
      after (effects trap (fixedInsns (pathBase run.entry run.trampolineAddr) (run.entry.tocValue.setWidth 32)))
        { m with cia := codeAddr run.trampolineAddr 0 } := by
  unfold fixedInsns syscallInsns secondCall firstCall
  simp only [effects_append, after_append]
  rfl

/--
Behind the calls the program gets to the remainder.
-/
theorem quietly_remainder (htrap : KeepsCallers trap) (m : Machine ρ)
    (hcia : (secondCall run trap m).cia = codeAddr run.trampolineAddr 29)
    (hquiet : ∀ w ∈ windowWords run, decode w ≠ some .sc)
    (hnext : ∀ w ∈ windowWords run, ∀ s, Agree (m.gpr 1) s (m.setGpr 2 run.entry.tocValue) →
      (execWord trap other w s).cia = s.cia + 4)
    : ∃ m', Quietly run trap other (trap (secondCall run trap m)) m'
        ∧ atRemainder run.entry.codeAddress run.tramp m' := by
  have ⟨offset, b⟩ := p.built_start hstart
  have n := p.near hstart
  have hn := displaced_of_reaches _ _ n.jumpIn
  have hlen := b.length_resumed
  rw [hn] at hlen
  have ⟨w, hw⟩ := List.length_eq_one_iff.mp hlen
  have hmem : w ∈ windowWords run := by
    rw [hw]
    apply List.mem_singleton_self
  have hcode := code_eq run.entry run.trampolineAddr (windowWords run)
  have hdecodes := decodes_epilogue.append (decodes_loadImmediate32 2 (run.entry.tocValue.setWidth 32))
  have ⟨hreach, hend⟩ := p.reaches_straight hstart trap other
    (prologue ++ loadArgs (pathBase run.entry run.trampolineAddr) ++ [encodeSc] ++ startArgs ++ [encodeSc]) (by
    rw [hcode]
    simp only [List.append_assoc]
    rfl) (straight_of_decodes htrap.returns other hdecodes rfl) (trap (secondCall run trap m)) (by
    rw [htrap.returns, hcia]
    apply codeAddr_add _ 29 1)
  rw [map_execWord_of_decodes trap other hdecodes, restored_eq] at hreach hend
  -- the displaced word
  have hagree := agree_after_fixedInsns trap htrap (pathBase run.entry run.trampolineAddr)
    (run.entry.tocValue.setWidth 32) { m with cia := codeAddr run.trampolineAddr 0 }
  rw [(loadedImmediate_setWidth_eq_iff run.entry.tocValue).mpr n.toc] at hagree
  generalize after _ _ = s at hreach hend hagree
  replace hend : s.cia = codeAddr run.trampolineAddr 49 := hend
  have hcia' := hnext w hmem s ⟨hagree.gpr, hagree.lr, hagree.ctr, hagree.cr, hagree.rest, hagree.mem⟩
  have hword : (code run.entry run.trampolineAddr (windowWords run))[49]? = some w := by
    apply getElem?_code_resumed _ _ _ 0
    rw [hw]
    rfl
  have hstep := p.quietly_word hstart trap other hword (hquiet w hmem) s hend
  generalize execWord trap other w s = s' at hcia' hstep
  replace hcia' : s'.cia = codeAddr run.trampolineAddr 50 := by
    rw [hcia', hend]
    apply codeAddr_add _ 49 1
  -- the way back
  have hback : (code run.entry run.trampolineAddr (windowWords run))[50]?
      = some (branchWord (backDisp run.entry run.trampolineAddr)) := by
    apply b.getElem?_code_jumpBack hn 0
    rw [jumpBack_eq _ _ hn, if_pos n.jumpBack]
    rfl
  have hfetch := p.fetchAt_codeAddr hstart hback
  rw [← hcia'] at hfetch
  have hjump := reaches_branch trap other n.jumpBack hfetch (p.not_atRemainder_code hstart hback s' hcia')
  refine ⟨_, (hreach.trans hstep).trans hjump, ?_⟩
  show s'.cia + _ = _
  rw [hcia', add_backDisp _ _ n.page n.jumpIn n.jumpBack, b.remainder_eq, hn]

theorem exists_calls (htrap : KeepsCallers trap) (m : Machine ρ) (hcia : m.cia = run.entry.codeAddress)
    (hquiet : ∀ w ∈ windowWords run, decode w ≠ some .sc)
    (hnext : ∀ w ∈ windowWords run, ∀ s, Agree (m.gpr 1) s (m.setGpr 2 run.entry.tocValue) →
      (execWord trap other w s).cia = s.cia + 4)
    : ∃ m', Observed (fetchStep trap other (reparsed run)) (AtCall (reparsed run))
        (atRemainder run.entry.codeAddress run.tramp) m [firstCall run trap m, secondCall run trap m] m' := by
  have hcode := code_eq run.entry run.trampolineAddr (windowWords run)
  have ⟨hreach₁, hcia₁⟩ := p.quietly_firstCall hstart trap other htrap.returns m hcia
  have ⟨hreach₂, hcia₂⟩ := p.quietly_secondCall hstart trap other htrap.returns m hcia₁
  have ⟨m', hreach₃, hstop⟩ := p.quietly_remainder hstart trap other htrap m hcia₂ hquiet hnext
  refine ⟨m', .of_reaches hreach₁ (p.observed_call hstart trap other ?_ hcia₁ (.of_reaches hreach₂
    (p.observed_call hstart trap other ?_ hcia₂ (.of_reaches hreach₃ (.stop m' hstop)))))⟩
  . rw [hcode]
    rfl
  . rw [hcode]
    rfl

/--
The string at the pointer of the first call.
-/
theorem stringAt_firstCall (m : Machine ρ) (hloaded : LoadedFrom (reparsed run) m)
    (hframe : ∀ i < run.tramp.blob.length,
      ¬ InFrame (m.gpr 1 - 256) (BitVec.ofNat 64 (run.trampolineAddr.toNat + i)))
    (hlow : run.trampolineAddr.toNat < 2 ^ 31) (hnul : 0 ∉ path)
    : StringAt (fun a => some ((firstCall run trap m).mem (BitVec.ofNat 64 a))) 0
        ((firstCall run trap m).gpr 3).toNat path := by
  have ⟨offset, b⟩ := p.built_start hstart
  have hlayout := b.blobLayout
  have hwords := hlayout.words_length
  have hn := hlayout.displaced_count
  have hm := hlayout.jumpBack_count
  have hmod := pickTrampolineAddr_mod run.file
  rw [← p.addr] at hmod
  have ⟨pad, _, hblob⟩ := hlayout.blob_eq
  have hblobLength : 8 + 4 * (code run.entry run.trampolineAddr (windowWords run)).length + path.length
      < run.tramp.blob.length := by
    rw [hblob]
    simp only [List.length_append, length_toBigEndianBytes, List.length_singleton]
    show _ < 8 + _ + _ + 1 + _
    omega
  rw [hlayout.displaced] at hlayout
  have hstring := p.stringAt_path hstart.mappable hstart.window hstart.free hlayout hnul
  have hargs := after_loadArgs trap (pathBase run.entry run.trampolineAddr)
    (after (effects trap prologueInsns) { m with cia := codeAddr run.trampolineAddr 0 })
  rw [← after_append, ← effects_append] at hargs
  replace hargs : firstCall run trap m = _ := hargs
  have hpointer : ((firstCall run trap m).gpr 3).toNat
      = run.trampolineAddr.toNat + (8 + 4 * (code run.entry run.trampolineAddr (windowWords run)).length) := by
    rw [hargs]
    show (loadedImmediate (pathBase run.entry run.trampolineAddr)).toNat = _
    have hbase : (pathBase run.entry run.trampolineAddr).toNat
        = run.trampolineAddr.toNat + (8 + 4 * (code run.entry run.trampolineAddr (windowWords run)).length) := by
      unfold pathBase codeBase
      rw [← hwords, Nat.mul_comm]
      apply p.toNat_codeAddr32
      omega
    rw [toNat_loadedImmediate, hbase, if_pos (by omega), Nat.zero_add]
  rw [hpointer]
  apply hstring.mono
  intro i hi byte hbyte
  have hclear := hframe (8 + 4 * (code run.entry run.trampolineAddr (windowWords run)).length + i) (by omega)
  rw [← Nat.add_assoc] at hclear
  have hmem := mem_prologue trap { m with cia := codeAddr run.trampolineAddr 0 } _ hclear
  rw [hargs]
  dsimp only
  rw [hmem]
  exact congrArg some (hloaded _ _ hbyte)

theorem loadsModule (htrap : KeepsCallers trap) (m : Machine ρ) (hloaded : LoadedFrom (reparsed run) m)
    (hframe : ∀ i < run.tramp.blob.length,
      ¬ InFrame (m.gpr 1 - 256) (BitVec.ofNat 64 (run.trampolineAddr.toNat + i)))
    (hlow : run.trampolineAddr.toNat < 2 ^ 31) (hnul : 0 ∉ path)
    : LoadsModule path trap (firstCall run trap m) (secondCall run trap m) := by
  have hcalls := calls_of_keepsFrame trap htrap.keepsFrame (pathBase run.entry run.trampolineAddr)
    { m with cia := codeAddr run.trampolineAddr 0 }
  rw [← after_append, ← effects_append] at hcalls
  have hstring := p.stringAt_firstCall hstart trap m hloaded hframe hlow hnul
  constructor
  . exact hcalls.loadNumber
  . intro s
    constructor
    . intro hs
      exact hs.unique hstring
    . intro hs
      rw [hs]
      exact hstring
  . exact hcalls.loadArgs
  . exact hcalls.startNumber
  . exact hcalls.startId
  . exact hcalls.startArgs

end Runs

end Patched

/--
From its entry point to behind the window the loaded output makes two system calls: the first one loads the module
at the path, the second one starts what the first one has returned. Then the program is in the state in which it
gets there without them, if the word of the window does the same there and here.
-/
theorem patch_calls (inputPath : String) (bytes : Bytes) (path : List Byte) (run : Run)
    (h : patch inputPath bytes path = .ok run) (htame : Tame bytes) (hstart : Startable run)
    (hlow : run.trampolineAddr.toNat < 2 ^ 31) (hnul : 0 ∉ path)
    (hquiet : ∀ w ∈ windowWords run, decode w ≠ some .sc)
    : ∃ file, parseAny run.outBytes = .ok (.be64 file)
        ∧ ∀ (ρ : Type) (trap : Machine ρ → Machine ρ) (other : Instruction → Machine ρ → Machine ρ)
            (m : Machine ρ), KeepsCallers trap →
            (∀ w ∈ windowWords run, ∀ s, Agree (m.gpr 1) s (m.setGpr 2 run.entry.tocValue) →
              (execWord trap other w s).cia = s.cia + 4) →
            m.cia = run.entry.codeAddress → LoadedFrom file m →
            (∀ i < run.tramp.blob.length,
              ¬ InFrame (m.gpr 1 - 256) (BitVec.ofNat 64 (run.trampolineAddr.toNat + i))) →
            ∃ m₁ m₂ m', Observed (fetchStep trap other file) (AtCall file)
                (atRemainder run.entry.codeAddress run.tramp) m [m₁, m₂] m'
              ∧ LoadsModule path trap m₁ m₂
              ∧ (AlikeAlong (m.gpr 1) ((windowWords run).map (execWord trap other))
                  (m.setGpr 2 run.entry.tocValue) →
                Agree (m.gpr 1) m'
                  (runOriginal (execWord trap other) (windowWords run) (m.setGpr 2 run.entry.tocValue))) := by
  have p := patched_of_patch inputPath bytes path run h
  have ⟨hsections, hcount⟩ := p.tame htame
  refine ⟨_, p.parseAny_outBytes hsections hcount, ?_⟩
  intro ρ trap other m htrap hnext hcia hloaded hframe
  have ⟨m', hobserved⟩ := p.exists_calls hstart trap other htrap m hcia hquiet hnext
  refine ⟨_, _, m', hobserved, p.loadsModule hstart trap htrap m hloaded hframe hlow hnul, ?_⟩
  intro hwindow
  have ⟨m'', hrun, hagree⟩ := p.until_reparsed hstart trap other m hcia hwindow htrap
  rw [hrun.unique hobserved.erase] at hagree
  exact hagree

theorem patch_calls_plainSample
    : ∃ run file m m₁ m₂ m', patch "EBOOT.elf" plainSample [0x61] = .ok run
        ∧ parseAny run.outBytes = .ok (.be64 file)
        ∧ Observed (fetchStep probeTrap probeSem file) (AtCall file) (atRemainder 0x10080 run.tramp) m [m₁, m₂] m'
        ∧ LoadsModule [0x61] probeTrap m₁ m₂ := by
  have ⟨run, hrun⟩ := exists_ok_of_isOk isOk_patch_plainSample
  have p := patched_of_patch _ _ _ _ hrun
  have ⟨_, hentry, haddr⟩ := p.plainSample_eq
  have hwindow : ∀ w ∈ windowWords run, w = 0x60000000 := by
    rw [windowWords_plainSample p]
    intro w hw
    exact List.mem_singleton.mp hw
  have ⟨file, hparse, hfile⟩ := patch_calls _ _ _ _ hrun tame_plainSample (startable_plainSample p)
    (by rw [haddr]; decide) (by decide) (by
      intro w hw
      rw [hwindow w hw]
      decide)
  have ⟨m₁, m₂, m', hobserved, hloads, _⟩ := hfile Unit probeTrap probeSem
    { probe run.entry 0 with mem := fun addr => (file.byteAt addr).getD 0 } keepsCallers_probeTrap (by
      intro w hw s _
      rw [hwindow w hw]
      rfl) rfl (by
      intro addr b hb
      show (file.byteAt addr).getD 0 = b
      rw [hb]
      rfl) (by
      intro i hi hin
      have ⟨offset, originals, resumed, b⟩ := built_of_buildTrampoline _ _ _ _ _ p.built
      have hle := b.length_blob_le
      unfold InFrame at hin
      rw [haddr] at hin
      replace hin : (BitVec.ofNat 64 (131072 + i) - (0#64 - 256)).toNat < 256 := hin
      rw [BitVec.toNat_sub, BitVec.toNat_ofNat] at hin
      replace hin : (2 ^ 64 - (2 ^ 64 - 256) + (131072 + i) % 2 ^ 64) % 2 ^ 64 < 256 := hin
      omega)
  rw [hentry] at hobserved
  exact ⟨run, file, _, m₁, m₂, m', hrun, hparse, hobserved, hloads⟩

end Ps3patch
end ElfCraft
