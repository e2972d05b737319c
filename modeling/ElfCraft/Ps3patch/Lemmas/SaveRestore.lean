import ElfCraft.Ps3patch.Lemmas.Frame

/-!
This module contains the block that saves the registers of the program, loads and starts the module and
restores them. The system calls may clobber everything but what the block relies on.
-/

namespace ElfCraft
namespace Ps3patch

open Binary Ppc Exec detail

variable {ρ : Type} (trap : Machine ρ → Machine ρ)

/--
A system call keeps the stack pointer, the non volatile registers and the frame that it runs on.
-/
structure KeepsFrame (trap : Machine ρ → Machine ρ) : Prop where
  gpr : ∀ m (r : BitVec 5), r = 1 ∨ 13 ≤ r → (trap m).gpr r = m.gpr r
  mem : ∀ m addr, InFrame (m.gpr 1) addr → (trap m).mem addr = m.mem addr

/-
The arguments of the two calls.
-/

theorem exec_li (rt : BitVec 5) (si : BitVec 16) (m : Machine ρ)
    : exec trap (.addi rt 0 si) m = (m.setGpr rt (0 + si.signExtend 64)).next := by
  rfl

theorem after_loadArgs (pathAddress : BitVec 32) (m : Machine ρ)
    : after (effects trap (loadArgsInsns pathAddress)) m
        =
      { m with
        gpr := fun r => if r = 11 then 480 else if r = 5 then 0 else if r = 4 then 0
          else if r = 3 then loadedImmediate pathAddress else m.gpr r
        cia := m.cia + 24 } := by
  unfold loadArgsInsns
  rw [effects_append, after_append, after_loadImmediateInsns]
  unfold effects
  simp only [List.map_cons, List.map_nil, after_cons, exec_li]
  simp only [after, List.foldl_nil, Machine.next, Machine.setGpr, Machine.mk.injEq, true_and, and_true]
  constructor
  . rfl
  . simp only [BitVec.add_assoc]
    rfl

theorem after_startArgs (m : Machine ρ)
    : after (effects trap startArgsInsns) m
        =
      { m with
        gpr := fun r => if r = 11 then 481 else if r = 8 then 0 else if r = 7 then 0 else if r = 6 then 0
          else if r = 5 then 0 else if r = 4 then 0 else m.gpr r
        cia := m.cia + 24 } := by
  unfold startArgsInsns effects
  simp only [List.map_cons, List.map_nil, after_cons, exec_li]
  simp only [after, List.foldl_nil, Machine.next, Machine.setGpr, Machine.mk.injEq, true_and, and_true]
  constructor
  . rfl
  . simp only [BitVec.add_assoc]
    rfl

/-
The run of the block.
-/

/--
`m₁` and `m₂` are the states in front of the two system calls, `m'` is the one behind the block.
-/
structure Calls (m m₁ m₂ m' : Machine ρ) : Prop where
  loadNumber : m₁.gpr 11 = 480
  loadArgs : m₁.gpr 4 = 0 ∧ m₁.gpr 5 = 0
  startNumber : m₂.gpr 11 = 481
  startId : m₂.gpr 3 = (trap m₁).gpr 3
  startArgs : ∀ (r : BitVec 5), 4 ≤ r → r ≤ 8 → m₂.gpr r = 0
  gpr : ∀ (r : BitVec 5), r ≠ 2 → m'.gpr r = m.gpr r
  lr : m'.lr = m.lr
  ctr : m'.ctr = m.ctr
  memLoad : ∀ addr, ¬ InFrame (m.gpr 1 - 256) addr → m₁.mem addr = m.mem addr
  memStart : m₂.mem = (trap m₁).mem
  memEnd : m'.mem = (trap m₂).mem

-- The offsets from `r1` that the words store to.
def saveOffsets (ws : List Instruction) : List Nat :=
  ws.filterMap fun w =>
    match decode w with
    | some (.std _ ra ds) => if ra = 1 then some (extsDs ds).toNat else none
    | _ => none

theorem ne_args_of_kept (r : BitVec 5) (h : r = 1 ∨ 13 ≤ r)
    : r ≠ 3 ∧ r ≠ 4 ∧ r ≠ 5 ∧ r ≠ 6 ∧ r ≠ 7 ∧ r ≠ 8 ∧ r ≠ 11 := by
  revert r
  decide

theorem eq_arg_of_range (r : BitVec 5) (hlower : 4 ≤ r) (hupper : r ≤ 8)
    : r = 4 ∨ r = 5 ∨ r = 6 ∨ r = 7 ∨ r = 8 := by
  revert r
  decide

theorem Framed.loadArgs {m₀ m : Machine ρ} (f : Framed m₀ m) (pathAddress : BitVec 32)
    : Framed m₀ (after (effects trap (loadArgsInsns pathAddress)) m) := by
  rw [after_loadArgs]
  apply f.congr
  . intro r hr
    obtain ⟨h3, h4, h5, -, -, -, h11⟩ := ne_args_of_kept r hr
    simp only [h3, h4, h5, h11, ↓reduceIte]
  . intro addr _
    rfl

theorem Framed.startArgs {m₀ m : Machine ρ} (f : Framed m₀ m)
    : Framed m₀ (after (effects trap startArgsInsns) m) := by
  rw [after_startArgs]
  apply f.congr
  . intro r hr
    obtain ⟨-, h4, h5, h6, h7, h8, h11⟩ := ne_args_of_kept r hr
    simp only [h4, h5, h6, h7, h8, h11, ↓reduceIte]
  . intro addr _
    rfl

theorem Framed.syscall {trap : Machine ρ → Machine ρ} (htrap : KeepsFrame trap) {m₀ m : Machine ρ}
    (f : Framed m₀ m)
    : Framed m₀ (trap m) := by
  exact f.congr (htrap.gpr m) (htrap.mem m)

theorem calls_of_keepsFrame (htrap : KeepsFrame trap) (pathAddress : BitVec 32) (m : Machine ρ)
    : let m₁ := after (effects trap (loadArgsInsns pathAddress)) (after (effects trap prologueInsns) m)
      let m₂ := after (effects trap startArgsInsns) (trap m₁)
      Calls trap m m₁ m₂ (after (effects trap epilogueInsns) (trap m₂)) := by
  intro m₁ m₂
  have hm₁ := after_loadArgs trap pathAddress (after (effects trap prologueInsns) m)
  have hm₂ := after_startArgs trap (trap m₁)
  have hframed : Framed m (trap m₂) :=
    ((((framed_prologue trap m).loadArgs trap pathAddress).syscall htrap).startArgs trap).syscall htrap
  have hloaded := loaded_after_epilogue trap hframed
  replace hm₁ : m₁ = _ := hm₁
  replace hm₂ : m₂ = _ := hm₂
  constructor
  . rw [hm₁]
    rfl
  . rw [hm₁]
    exact ⟨rfl, rfl⟩
  . rw [hm₂]
    rfl
  . rw [hm₂]
    rfl
  . intro r hlower hupper
    rw [hm₂]
    rcases eq_arg_of_range r hlower hupper with rfl | rfl | rfl | rfl | rfl
    all_goals rfl
  . intro r hr
    rw [hloaded.gpr]
    exact if_neg hr
  . exact hloaded.lr
  . exact hloaded.ctr
  . intro addr haddr
    rw [hm₁]
    exact mem_prologue trap m addr haddr
  . rw [hm₂]
  . exact hloaded.mem

/--
The block gives the program its registers back whatever the system calls do to the ones that it saves, and
it calls them with the numbers and arguments that load and start a module. It does not write outside of
its frame, where the slots neither overlap nor reach into the linkage area.
-/
theorem saveCallRestore (htrap : KeepsFrame trap) (pathAddress : BitVec 32) (m : Machine ρ)
    : ∃ prologue epilogue load start,
        buildPrologue = .ok prologue ∧ buildEpilogue = .ok epilogue
          ∧ prologue ++ makeLoadAndStartModule pathAddress ++ epilogue
            = prologue ++ load ++ encodeSc :: start ++ encodeSc :: epilogue
          ∧ (∀ w ∈ prologue ++ load ++ start ++ epilogue, decode w ≠ some .sc)
          ∧ (∃ m₁ m₂ m',
            execWords trap (prologue ++ load) m = some m₁
              ∧ execWords trap start (trap m₁) = some m₂
              ∧ execWords trap epilogue (trap m₂) = some m'
              ∧ execWords trap (prologue ++ makeLoadAndStartModule pathAddress ++ epilogue) m = some m'
              ∧ Calls trap m m₁ m₂ m')
          ∧ (saveOffsets prologue).Pairwise (fun a b => a + 8 ≤ b ∨ b + 8 ≤ a)
          ∧ ∀ a ∈ saveOffsets prologue, 112 ≤ a ∧ a + 8 ≤ 256 := by
  have hload := decodes_prologue.append (decodes_loadArgs pathAddress)
  have hblock := (decodes_prologue.append (decodes_makeLoadAndStartModule pathAddress)).append decodes_epilogue
  refine ⟨prologue, epilogue, loadArgs pathAddress, startArgs, buildPrologue_eq, buildEpilogue_eq, ?_, ?_, ?_,
    ?_, ?_⟩
  . rw [makeLoadAndStartModule_eq]
    simp only [List.append_assoc, List.cons_append, List.nil_append]
  . intro w hw
    obtain ⟨i, hi, hdecode⟩ := ((hload.append decodes_startArgs).append decodes_epilogue).exists_mem hw
    rw [hdecode, ne_eq, Option.some.injEq]
    rintro rfl
    revert hi
    simp [prologueInsns, epilogueInsns, loadArgsInsns, loadImmediateInsns, startArgsInsns, storeSlot, loadSlot,
      saves, restores]
  . refine ⟨_, _, _, execWords_eq_after trap _ _ hload m, execWords_eq_after trap _ _ decodes_startArgs _,
      execWords_eq_after trap _ _ decodes_epilogue _, ?_, ?_⟩
    . rw [execWords_eq_after trap _ _ hblock, syscallInsns_eq]
      simp only [effects_append, after_append]
      rfl
    . rw [effects_append, after_append]
      exact calls_of_keepsFrame trap htrap pathAddress m
  . decide +kernel
  . decide +kernel

-- A system call that destroys every register it may.
def clobber (m : Machine Unit) : Machine Unit :=
  { m.next with
    gpr := fun r => if r = 1 ∨ 13 ≤ r then m.gpr r else 0xDEAD
    lr := 0, ctr := 0, cr := 0 }

theorem keepsFrame_clobber : KeepsFrame clobber := by
  constructor
  . intro m r hr
    exact if_pos hr
  . intro m addr _
    rfl

def clobberStart : Machine Unit where
  gpr := fun r => if r = 1 then 0xD0000000 else r.setWidth 64
  lr := 0x10000
  ctr := 0x10004
  cr := 0
  mem := fun _ => 0
  cia := 0x20008
  rest := ()

theorem saveCallRestore_clobber
    : ∃ prologue epilogue m',
        buildPrologue = .ok prologue ∧ buildEpilogue = .ok epilogue
          ∧ execWords clobber (prologue ++ makeLoadAndStartModule 0x200E0 ++ epilogue) clobberStart = some m'
          ∧ m'.gpr 12 = 12 ∧ m'.lr = 0x10000 ∧ m'.ctr = 0x10004 := by
  obtain ⟨prologue, epilogue, load, start, hpro, hepi, -, -, ⟨m₁, m₂, m', -, -, -, hrun, hcalls⟩, -⟩ :=
    saveCallRestore clobber keepsFrame_clobber 0x200E0 clobberStart
  refine ⟨prologue, epilogue, m', hpro, hepi, hrun, ?_, hcalls.lr, hcalls.ctr⟩
  apply hcalls.gpr 12
  decide

end Ps3patch
end ElfCraft
