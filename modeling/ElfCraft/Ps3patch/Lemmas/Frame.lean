import ElfCraft.Ppc.Lemmas.Block
import ElfCraft.Ppc.Lemmas.Memory
import ElfCraft.Ps3patch.Hijack
import ElfCraft.Ps3patch.Lemmas.Trampoline
import Mathlib.Tactic.IntervalCases

/-!
This module contains the frame of the trampoline: the prologue saves the registers of the program to it,
the system calls keep it and the epilogue restores the registers from it.
-/

namespace ElfCraft
namespace Ps3patch

open Binary Elf Ppc Exec detail

variable {ρ : Type} (trap : Machine ρ → Machine ρ)

/-
The slots of a frame. The general purpose register `j` has slot `j`, LR and CTR have slots 1 and 2.
-/

def slot (base : BitVec 64) (j : Nat) : BitVec 64 := base + BitVec.ofNat 64 (128 + 8 * j)

theorem toNat_slot_sub_base (base : BitVec 64) (j k : Nat) (hj : j < 16) (hk : k < 8)
    : (slot base j + BitVec.ofNat 64 k - base).toNat = 128 + 8 * j + k := by
  unfold slot
  rw [BitVec.toNat_sub, BitVec.toNat_add, BitVec.toNat_add, BitVec.toNat_ofNat, BitVec.toNat_ofNat]
  omega

theorem inFrame_slot (base : BitVec 64) (j k : Nat) (hj : j < 16) (hk : k < 8)
    : InFrame base (slot base j + BitVec.ofNat 64 k) := by
  unfold InFrame
  rw [toNat_slot_sub_base base j k hj hk]
  omega

theorem load64_slot_congr (mem mem' : BitVec 64 → BitVec 8) (base : BitVec 64) (j : Nat) (hj : j < 16)
    (h : ∀ addr, InFrame base addr → mem addr = mem' addr)
    : load64 mem (slot base j) = load64 mem' (slot base j) := by
  apply load64_congr
  intro k hk
  apply h
  apply inFrame_slot base j k hj hk

theorem store64_slot_of_not_inFrame (mem : BitVec 64 → BitVec 8) (base v addr : BitVec 64) (j : Nat)
    (hj : j < 16) (h : ¬ InFrame base addr)
    : store64 mem (slot base j) v addr = mem addr := by
  apply store64_of_outside
  unfold InFrame at h
  unfold slot
  rw [BitVec.toNat_sub] at h ⊢
  rw [BitVec.toNat_add, BitVec.toNat_ofNat]
  omega

theorem load64_store64_slot (mem : BitVec 64 → BitVec 8) (base v : BitVec 64) (i j : Nat) (hi : i < 16)
    (hj : j < 16)
    : load64 (store64 mem (slot base i) v) (slot base j)
        =
      if j = i then v else load64 mem (slot base j) := by
  split
  . next heq =>
    rw [heq, load64_store64_same]
  . next hne =>
    apply load64_store64_of_disjoint
    intro k hk
    unfold slot
    rw [BitVec.toNat_sub, BitVec.toNat_add, BitVec.toNat_add, BitVec.toNat_add, BitVec.toNat_ofNat,
      BitVec.toNat_ofNat, BitVec.toNat_ofNat]
    omega

theorem load64_store64_base (mem : BitVec 64 → BitVec 8) (base v : BitVec 64) (j : Nat) (hj : j < 16)
    : load64 (store64 mem base v) (slot base j) = load64 mem (slot base j) := by
  apply load64_store64_of_disjoint
  intro k hk
  rw [toNat_slot_sub_base base j k hj hk]
  omega

theorem extsDs_slot (j : Nat) (hj : j < 16)
    : extsDs (BitVec.ofNat 14 (32 + 2 * j)) = BitVec.ofNat 64 (128 + 8 * j) := by
  revert j
  decide

/-
Moving registers to and from their slots.
-/

def storeSlot (rs : BitVec 5) (j : Nat) : Insn := .std rs 1 (BitVec.ofNat 14 (32 + 2 * j))
def loadSlot (rt : BitVec 5) (j : Nat) : Insn := .ld rt 1 (BitVec.ofNat 14 (32 + 2 * j))

theorem exec_storeSlot (rs : BitVec 5) (j : Nat) (hj : j < 16) (m : Machine ρ)
    : exec trap (storeSlot rs j) m
        =
      { m with mem := store64 m.mem (slot (m.gpr 1) j) (m.gpr rs) }.next := by
  unfold storeSlot exec
  simp only [Machine.base, slot, extsDs_slot j hj]
  rfl

theorem exec_loadSlot (rt : BitVec 5) (j : Nat) (hj : j < 16) (m : Machine ρ)
    : exec trap (loadSlot rt j) m = (m.setGpr rt (load64 m.mem (slot (m.gpr 1) j))).next := by
  unfold loadSlot exec
  simp only [Machine.base, slot, extsDs_slot j hj]
  rfl

def saves (js : List Nat) : List Insn := js.map fun j => storeSlot (BitVec.ofNat 5 j) j
def restores (js : List Nat) : List Insn := js.map fun j => loadSlot (BitVec.ofNat 5 j) j

/--
`m'` is `m` with the registers `js` in their slots.
-/
structure Saved (js : List Nat) (m m' : Machine ρ) : Prop where
  gpr : m'.gpr = m.gpr
  lr : m'.lr = m.lr
  ctr : m'.ctr = m.ctr
  cr : m'.cr = m.cr
  rest : m'.rest = m.rest
  mem : ∀ addr, ¬ InFrame (m.gpr 1) addr → m'.mem addr = m.mem addr
  slots : ∀ j < 16, load64 m'.mem (slot (m.gpr 1) j)
    = if j ∈ js then m.gpr (BitVec.ofNat 5 j) else load64 m.mem (slot (m.gpr 1) j)

theorem saved_after_saves (js : List Nat) (hjs : ∀ j ∈ js, j < 16) (m : Machine ρ)
    : Saved js m (after (effects trap (saves js)) m) := by
  induction js generalizing m with
  | nil =>
    constructor
    . rfl
    . rfl
    . rfl
    . rfl
    . rfl
    . intro addr _
      rfl
    . intro j _
      rfl
  | cons i js ih =>
    have hi := hjs i List.mem_cons_self
    have hstore := exec_storeSlot trap (BitVec.ofNat 5 i) i hi m
    have h := ih (fun j hj => hjs j (List.mem_cons_of_mem i hj))
      (exec trap (storeSlot (BitVec.ofNat 5 i) i) m)
    rw [saves, List.map_cons, ← saves, effects, List.map_cons, ← effects, after_cons]
    rw [hstore] at h ⊢
    constructor
    . exact h.gpr
    . exact h.lr
    . exact h.ctr
    . exact h.cr
    . exact h.rest
    . intro addr haddr
      rw [h.mem addr haddr]
      apply store64_slot_of_not_inFrame _ _ _ _ i hi haddr
    . intro j hj
      apply (h.slots j hj).trans
      show (if j ∈ js then m.gpr _ else load64 (store64 m.mem (slot (m.gpr 1) i) _) (slot (m.gpr 1) j)) = _
      rw [load64_store64_slot _ _ _ _ _ hi hj]
      by_cases hji : j = i
      . rw [if_pos hji, if_pos (List.mem_cons.mpr (.inl hji)), hji]
        split
        . rfl
        . rfl
      . rw [if_neg hji]
        simp only [List.mem_cons, hji, false_or]

/--
`m'` is `m` with the registers `js` taken from their slots.
-/
structure Restored (js : List Nat) (m m' : Machine ρ) : Prop where
  lr : m'.lr = m.lr
  ctr : m'.ctr = m.ctr
  cr : m'.cr = m.cr
  rest : m'.rest = m.rest
  mem : m'.mem = m.mem
  gpr : ∀ (r : BitVec 5), m'.gpr r
    = if r.toNat ∈ js then load64 m.mem (slot (m.gpr 1) r.toNat) else m.gpr r

theorem restored_after_restores (js : List Nat) (hjs : ∀ j ∈ js, j < 16 ∧ j ≠ 1) (m : Machine ρ)
    : Restored js m (after (effects trap (restores js)) m) := by
  induction js generalizing m with
  | nil =>
    constructor
    . rfl
    . rfl
    . rfl
    . rfl
    . rfl
    . intro r
      rfl
  | cons i js ih =>
    obtain ⟨hi, hne⟩ := hjs i List.mem_cons_self
    have hval : (BitVec.ofNat 5 i).toNat = i := by
      rw [BitVec.toNat_ofNat]
      omega
    have hload := exec_loadSlot trap (BitVec.ofNat 5 i) i hi m
    have h := ih (fun j hj => hjs j (List.mem_cons_of_mem i hj))
      (exec trap (loadSlot (BitVec.ofNat 5 i) i) m)
    rw [restores, List.map_cons, ← restores, effects, List.map_cons, ← effects, after_cons]
    rw [hload] at h ⊢
    have hsp : (m.setGpr (BitVec.ofNat 5 i) (load64 m.mem (slot (m.gpr 1) i))).next.gpr 1 = m.gpr 1 := by
      show (if (1 : BitVec 5) = BitVec.ofNat 5 i then _ else _) = _
      rw [if_neg]
      intro heq
      rw [← heq] at hval
      exact hne hval.symm
    constructor
    . exact h.lr
    . exact h.ctr
    . exact h.cr
    . exact h.rest
    . exact h.mem
    . intro r
      have hr := h.gpr r
      rw [hsp] at hr
      rw [hr]
      show (if r.toNat ∈ js then load64 m.mem _ else if r = BitVec.ofNat 5 i then _ else m.gpr r) = _
      by_cases hmem : r.toNat ∈ js
      . rw [if_pos hmem, if_pos (List.mem_cons_of_mem i hmem)]
      . by_cases hri : r = BitVec.ofNat 5 i
        . rw [if_neg hmem, if_pos hri, hri, hval, if_pos List.mem_cons_self]
        . have hri' : r.toNat ≠ i := by
            intro heq
            apply hri
            rw [← heq, BitVec.ofNat_toNat, BitVec.setWidth_eq]
          rw [if_neg hmem, if_neg hri, if_neg]
          simp only [List.mem_cons, hri', hmem, or_self, not_false_eq_true]

/-
The parts of the trampoline.
-/

def savedRegs : List Nat := [3, 4, 5, 6, 7, 8, 9, 10, 11, 12]

def prologueInsns : List Insn :=
  [.stdu 1 1 (-64), storeSlot 0 0, .mfspr 0 .lr, storeSlot 0 1, .mfspr 0 .ctr, storeSlot 0 2]
    ++ saves savedRegs

def epilogueInsns : List Insn :=
  [loadSlot 0 1, .mtspr 0 .lr, loadSlot 0 2, .mtspr 0 .ctr] ++ restores savedRegs
    ++ [loadSlot 0 0, .addi 1 1 256]

theorem decodes_prologue : Decodes prologue prologueInsns := by
  unfold Decodes
  decide +kernel

theorem decodes_epilogue : Decodes epilogue epilogueInsns := by
  unfold Decodes
  decide +kernel

-- What the frame holds in slot `j`.
def frameValue (m : Machine ρ) (j : Nat) : BitVec 64 :=
  if j = 1 then m.lr else if j = 2 then m.ctr else m.gpr (BitVec.ofNat 5 j)

theorem frameValue_zero (m : Machine ρ) : frameValue m 0 = m.gpr 0 := by
  rfl

theorem frameValue_one (m : Machine ρ) : frameValue m 1 = m.lr := by
  rfl

theorem frameValue_two (m : Machine ρ) : frameValue m 2 = m.ctr := by
  rfl

theorem frameValue_of_two_lt (m : Machine ρ) (j : Nat) (h : 2 < j)
    : frameValue m j = m.gpr (BitVec.ofNat 5 j) := by
  unfold frameValue
  rw [if_neg (by omega), if_neg (by omega)]

/--
`m` runs on the frame that `m₀` has pushed: what the program has in its registers is in there, up to
the non volatile ones.
-/
structure Framed (m₀ m : Machine ρ) : Prop where
  sp : m.gpr 1 = m₀.gpr 1 - 256
  gpr : ∀ (r : BitVec 5), 13 ≤ r → m.gpr r = m₀.gpr r
  slots : ∀ j < 13, load64 m.mem (slot (m.gpr 1) j) = frameValue m₀ j

/--
`m` runs on the frame that `m₀` has pushed: what the program has in its registers is in there, up to
what nobody touches.
-/
structure Pushed (m₀ m : Machine ρ) : Prop where
  sp : m.gpr 1 = m₀.gpr 1 - 256
  gpr : ∀ (r : BitVec 5), 13 ≤ r → m.gpr r = m₀.gpr r
  cr : m.cr = m₀.cr
  rest : m.rest = m₀.rest
  mem : ∀ addr, ¬ Below (m₀.gpr 1) addr → m.mem addr = m₀.mem addr
  slots : ∀ j < 13, load64 m.mem (slot (m.gpr 1) j) = frameValue m₀ j

-- The frame with `r0`, LR and CTR in it, before the other registers are saved.
def push (m : Machine ρ) : Machine ρ :=
  after (effects trap [.stdu 1 1 (-64), storeSlot 0 0, .mfspr 0 .lr, storeSlot 0 1, .mfspr 0 .ctr,
    storeSlot 0 2]) m

theorem push_eq (m : Machine ρ)
    : push trap m
        =
      { m with
        gpr := fun r => if r = 0 then m.ctr else if r = 1 then m.gpr 1 - 256 else m.gpr r
        mem := store64 (store64 (store64 (store64 m.mem (m.gpr 1 - 256) (m.gpr 1))
          (slot (m.gpr 1 - 256) 0) (m.gpr 0)) (slot (m.gpr 1 - 256) 1) m.lr)
          (slot (m.gpr 1 - 256) 2) m.ctr
        cia := m.cia + 24 } := by
  have hds : m.gpr 1 + extsDs (-64) = m.gpr 1 - 256 := by
    rw [BitVec.sub_eq_add_neg]
    rfl
  have h01 : ((0 : BitVec 5) = 1) = False := by
    decide
  have h10 : ((1 : BitVec 5) = 0) = False := by
    decide
  unfold push effects
  simp only [List.map_cons, List.map_nil, after_cons, exec_storeSlot _ _ _ (by omega : 0 < 16),
    exec_storeSlot _ _ _ (by omega : 1 < 16), exec_storeSlot _ _ _ (by omega : 2 < 16)]
  simp only [exec, after, List.foldl_nil, Machine.next, Machine.setGpr, hds, h01, h10, ↓reduceIte,
    Machine.mk.injEq, true_and, and_true]
  constructor
  . funext r
    split
    . rfl
    . rfl
  . rw [BitVec.add_assoc, BitVec.add_assoc, BitVec.add_assoc, BitVec.add_assoc, BitVec.add_assoc]
    rfl

theorem Pushed.framed {m₀ m : Machine ρ} (p : Pushed m₀ m) : Framed m₀ m := by
  exact ⟨p.sp, p.gpr, p.slots⟩

theorem saved_prologue (m : Machine ρ)
    : Saved savedRegs (push trap m) (after (effects trap prologueInsns) m) := by
  unfold prologueInsns
  rw [effects_append, after_append, ← push]
  apply saved_after_saves trap savedRegs
  decide

theorem mem_prologue (m : Machine ρ) (addr : BitVec 64) (haddr : ¬ InFrame (m.gpr 1 - 256) addr)
    : (after (effects trap prologueInsns) m).mem addr = m.mem addr := by
  have hsp : (push trap m).gpr 1 = m.gpr 1 - 256 := by
    rw [push_eq]
    rfl
  rw [(saved_prologue trap m).mem addr (by rw [hsp]; exact haddr), push_eq]
  dsimp only
  rw [store64_slot_of_not_inFrame _ _ _ _ 2 (by omega) haddr,
    store64_slot_of_not_inFrame _ _ _ _ 1 (by omega) haddr,
    store64_slot_of_not_inFrame _ _ _ _ 0 (by omega) haddr]
  apply store64_of_outside
  unfold InFrame at haddr
  omega

theorem framed_prologue (m : Machine ρ) : Framed m (after (effects trap prologueInsns) m) := by
  have hsaved := saved_prologue trap m
  have hpush := push_eq trap m
  have hsp : (push trap m).gpr 1 = m.gpr 1 - 256 := by
    rw [hpush]
    rfl
  constructor
  . rw [hsaved.gpr, hsp]
  . intro r hr
    rw [hsaved.gpr, hpush]
    dsimp only
    rw [if_neg (by rintro rfl; contradiction), if_neg (by rintro rfl; contradiction)]
  . intro j hj
    have hslot := hsaved.slots j (by omega)
    rw [hsaved.gpr]
    rw [hslot, hsp, hpush]
    dsimp only
    rw [load64_store64_slot _ _ _ 2 j (by omega) (by omega), load64_store64_slot _ _ _ 1 j (by omega) (by omega),
      load64_store64_slot _ _ _ 0 j (by omega) (by omega), load64_store64_base _ _ _ j (by omega)]
    unfold frameValue
    interval_cases j <;> rfl

theorem pushed_prologue (m : Machine ρ) : Pushed m (after (effects trap prologueInsns) m) := by
  have hframed := framed_prologue trap m
  have hsaved := saved_prologue trap m
  have hpush := push_eq trap m
  constructor
  . exact hframed.sp
  . exact hframed.gpr
  . rw [hsaved.cr, hpush]
  . rw [hsaved.rest, hpush]
  . intro addr haddr
    apply mem_prologue trap m addr
    intro hin
    exact haddr (.inr hin)
  . exact hframed.slots

/-
The system calls.
-/

theorem Keeps.refl (m : Machine ρ) : Keeps m m := by
  constructor
  . intro r _
    rfl
  . rfl
  . rfl
  . intro addr _
    rfl

theorem Keeps.trans (m m' m'' : Machine ρ) (h : Keeps m m') (h' : Keeps m' m'') : Keeps m m'' := by
  have hsp := h.gpr 1 (.inl rfl)
  constructor
  . intro r hr
    rw [h'.gpr r hr, h.gpr r hr]
  . rw [h'.cr, h.cr]
  . rw [h'.rest, h.rest]
  . intro addr haddr
    rw [h'.mem addr (by rw [hsp]; exact haddr), h.mem addr haddr]

theorem keeps_setGpr (r : BitVec 5) (v : BitVec 64) (hr : ¬ (r = 1 ∨ 13 ≤ r)) (m : Machine ρ)
    : Keeps m (m.setGpr r v).next := by
  constructor
  . intro r' hr'
    show (if r' = r then v else m.gpr r') = _
    rw [if_neg]
    rintro rfl
    exact hr hr'
  . rfl
  . rfl
  . intro addr _
    rfl

-- The two calls up to their `sc`.

def loadArgs (pathAddress : BitVec 32) : List Instruction :=
  loadImmediate32 REG_ARG0 pathAddress ++
    [encodeLi REG_ARG1 0, encodeLi REG_ARG2 0, encodeLi REG_SYSCALL_NUMBER_DEFAULT 480]

def startArgs : List Instruction :=
  [encodeLi REG_ARG1 0, encodeLi REG_ARG2 0, encodeLi REG_ARG3 0, encodeLi REG_ARG4 0,
    encodeLi REG_ARG5 0, encodeLi REG_SYSCALL_NUMBER_DEFAULT 481]

theorem makeLoadAndStartModule_eq (pathAddress : BitVec 32)
    : makeLoadAndStartModule pathAddress
        =
      loadArgs pathAddress ++ [encodeSc] ++ startArgs ++ [encodeSc] := by
  rfl

def loadArgsInsns (pathAddress : BitVec 32) : List Insn :=
  loadImmediateInsns 3 pathAddress ++ [.addi 4 0 0, .addi 5 0 0, .addi 11 0 480]

def startArgsInsns : List Insn :=
  [.addi 4 0 0, .addi 5 0 0, .addi 6 0 0, .addi 7 0 0, .addi 8 0 0, .addi 11 0 481]

theorem decodes_loadArgs (pathAddress : BitVec 32)
    : Decodes (loadArgs pathAddress) (loadArgsInsns pathAddress) := by
  have hload : Decodes (loadImmediate32 REG_ARG0 pathAddress) (loadImmediateInsns 3 pathAddress) :=
    decodes_loadImmediate32 3 pathAddress
  apply hload.append
  unfold Decodes
  decide +kernel

theorem decodes_startArgs : Decodes startArgs startArgsInsns := by
  unfold Decodes
  decide +kernel

theorem decodes_encodeSc : Decodes [encodeSc] [.sc] := by
  unfold Decodes
  decide +kernel

def syscallInsns (pathAddress : BitVec 32) : List Insn :=
  loadImmediateInsns 3 pathAddress ++ [.addi 4 0 0, .addi 5 0 0, .addi 11 0 480, .sc] ++
    [.addi 4 0 0, .addi 5 0 0, .addi 6 0 0, .addi 7 0 0, .addi 8 0 0, .addi 11 0 481, .sc]

theorem syscallInsns_eq (pathAddress : BitVec 32)
    : syscallInsns pathAddress = loadArgsInsns pathAddress ++ [.sc] ++ startArgsInsns ++ [.sc] := by
  rfl

theorem decodes_makeLoadAndStartModule (pathAddress : BitVec 32)
    : Decodes (makeLoadAndStartModule pathAddress) (syscallInsns pathAddress) := by
  rw [makeLoadAndStartModule_eq, syscallInsns_eq]
  exact (((decodes_loadArgs pathAddress).append decodes_encodeSc).append decodes_startArgs).append
    decodes_encodeSc

theorem keeps_syscallInsns (htrap : KeepsCallers trap) (pathAddress : BitVec 32) (m : Machine ρ)
    : Keeps m (after (effects trap (syscallInsns pathAddress)) m) := by
  apply after_induction Keeps Keeps.refl Keeps.trans
  intro f hf
  unfold effects at hf
  rw [List.mem_map] at hf
  obtain ⟨i, hi, rfl⟩ := hf
  intro m
  simp only [syscallInsns, loadImmediateInsns, List.mem_append, List.mem_cons, List.not_mem_nil,
    or_false, or_assoc] at hi
  rcases hi with rfl | rfl | rfl | rfl | rfl | rfl | rfl | rfl | rfl | rfl | rfl | rfl | rfl | rfl
  all_goals first
    | exact htrap.keeps m
    | apply keeps_setGpr
      decide

theorem Framed.congr {m₀ m m' : Machine ρ} (f : Framed m₀ m)
    (hgpr : ∀ (r : BitVec 5), r = 1 ∨ 13 ≤ r → m'.gpr r = m.gpr r)
    (hmem : ∀ addr, InFrame (m.gpr 1) addr → m'.mem addr = m.mem addr)
    : Framed m₀ m' := by
  have hsp := hgpr 1 (.inl rfl)
  constructor
  . rw [hsp, f.sp]
  . intro r hr
    rw [hgpr r (.inr hr), f.gpr r hr]
  . intro j hj
    rw [← f.slots j hj, hsp]
    apply load64_slot_congr _ _ _ j (by omega)
    exact hmem

theorem Pushed.keeps {m₀ m m' : Machine ρ} (p : Pushed m₀ m) (h : Keeps m m') : Pushed m₀ m' := by
  have hframed := p.framed.congr h.gpr (fun addr haddr => h.mem addr (.inl haddr))
  constructor
  . exact hframed.sp
  . exact hframed.gpr
  . rw [h.cr, p.cr]
  . rw [h.rest, p.rest]
  . intro addr haddr
    rw [h.mem addr, p.mem addr haddr]
    right
    rw [p.sp, BitVec.sub_add_cancel]
    exact haddr
  . exact hframed.slots

/-
The way back to the program.
-/

/--
`m'` is `m` with other registers.
-/
structure Loaded (gpr : BitVec 5 → BitVec 64) (lr ctr : BitVec 64) (m m' : Machine ρ) : Prop where
  gpr : m'.gpr = gpr
  lr : m'.lr = lr
  ctr : m'.ctr = ctr
  cr : m'.cr = m.cr
  rest : m'.rest = m.rest
  mem : m'.mem = m.mem

theorem loaded_special (m : Machine ρ)
    : Loaded (fun r => if r = 0 then load64 m.mem (slot (m.gpr 1) 2) else m.gpr r)
        (load64 m.mem (slot (m.gpr 1) 1)) (load64 m.mem (slot (m.gpr 1) 2)) m
        (after (effects trap [loadSlot 0 1, .mtspr 0 .lr, loadSlot 0 2, .mtspr 0 .ctr]) m) := by
  have h10 : ((1 : BitVec 5) = 0) = False := by
    decide
  unfold effects
  simp only [List.map_cons, List.map_nil, after_cons, exec_loadSlot _ _ _ (by omega : 1 < 16),
    exec_loadSlot _ _ _ (by omega : 2 < 16)]
  simp only [exec, after, List.foldl_nil, Machine.next, Machine.setGpr, h10, ↓reduceIte]
  constructor
  . funext r
    dsimp only
    split
    . rfl
    . rfl
  . rfl
  . rfl
  . rfl
  . rfl
  . rfl

theorem loaded_pop (m : Machine ρ)
    : Loaded (fun r => if r = 1 then m.gpr 1 + 256
          else if r = 0 then load64 m.mem (slot (m.gpr 1) 0) else m.gpr r) m.lr m.ctr m
        (after (effects trap [loadSlot 0 0, .addi 1 1 256]) m) := by
  have h10 : ((1 : BitVec 5) = 0) = False := by
    decide
  unfold effects
  simp only [List.map_cons, List.map_nil, after_cons, exec_loadSlot _ _ _ (by omega : 0 < 16)]
  simp only [exec, after, List.foldl_nil, Machine.next, Machine.setGpr, Machine.base, h10, ↓reduceIte]
  constructor
  . rfl
  . rfl
  . rfl
  . rfl
  . rfl
  . rfl

theorem mem_savedRegs_or (r : BitVec 5) (h0 : r ≠ 0) (h1 : r ≠ 1) (h2 : r ≠ 2)
    : (r.toNat ∈ savedRegs ∧ r.toNat < 13 ∧ 2 < r.toNat) ∨ (r.toNat ∉ savedRegs ∧ 13 ≤ r) := by
  revert r
  decide

/--
The registers of the program are back, up to the TOC pointer.
-/
theorem loaded_after_epilogue {m₀ m : Machine ρ} (p : Framed m₀ m)
    : Loaded (fun r => if r = 2 then m.gpr 2 else m₀.gpr r) m₀.lr m₀.ctr m
        (after (effects trap epilogueInsns) m) := by
  have hspecial := loaded_special trap m
  unfold epilogueInsns
  rw [effects_append, effects_append, after_append, after_append]
  generalize after (effects trap [loadSlot 0 1, .mtspr 0 .lr, loadSlot 0 2, .mtspr 0 .ctr]) m = m₁
    at hspecial ⊢
  have hrestored := restored_after_restores trap savedRegs (by decide) m₁
  generalize after (effects trap (restores savedRegs)) m₁ = m₂ at hrestored ⊢
  have hpop := loaded_pop trap m₂
  generalize after (effects trap [loadSlot 0 0, .addi 1 1 256]) m₂ = m₃ at hpop ⊢
  have hsp : m₁.gpr 1 = m.gpr 1 := by
    rw [hspecial.gpr]
    exact if_neg (by decide)
  have hgpr (r : BitVec 5) (h0 : r ≠ 0) : m₂.gpr r
      = if r.toNat ∈ savedRegs then load64 m.mem (slot (m.gpr 1) r.toNat) else m.gpr r := by
    rw [hrestored.gpr, hsp, hspecial.mem, hspecial.gpr]
    dsimp only
    rw [if_neg h0]
  constructor
  . funext r
    rw [hpop.gpr]
    dsimp only
    by_cases h2 : r = 2
    . rw [h2, if_neg (by decide), if_neg (by decide), if_pos rfl, hgpr 2 (by decide), if_neg (by decide)]
    by_cases h1 : r = 1
    . rw [if_pos h1, if_neg h2, hgpr 1 (by decide), if_neg (by decide), p.sp, BitVec.sub_add_cancel, h1]
    by_cases h0 : r = 0
    . rw [if_neg h1, if_pos h0, if_neg h2, hgpr 1 (by decide), if_neg (by decide), hrestored.mem,
        hspecial.mem, p.slots 0 (by omega), frameValue_zero, h0]
    rw [if_neg h1, if_neg h0, if_neg h2, hgpr r h0]
    rcases mem_savedRegs_or r h0 h1 h2 with ⟨hmem, hlt, hvalue⟩ | ⟨hmem, hge⟩
    . rw [if_pos hmem, p.slots r.toNat hlt, frameValue_of_two_lt _ _ hvalue, BitVec.ofNat_toNat,
        BitVec.setWidth_eq]
    . rw [if_neg hmem, p.gpr r hge]
  . rw [hpop.lr, hrestored.lr, hspecial.lr, p.slots 1 (by omega), frameValue_one]
  . rw [hpop.ctr, hrestored.ctr, hspecial.ctr, p.slots 2 (by omega), frameValue_two]
  . rw [hpop.cr, hrestored.cr, hspecial.cr]
  . rw [hpop.rest, hrestored.rest, hspecial.rest]
  . rw [hpop.mem, hrestored.mem, hspecial.mem]

theorem agree_after_epilogue {m₀ m : Machine ρ} (p : Pushed m₀ m) (toc : BitVec 64)
    : Agree (m₀.gpr 1) ((after (effects trap epilogueInsns) m).setGpr 2 toc) (m₀.setGpr 2 toc) := by
  have hloaded := loaded_after_epilogue trap p.framed
  generalize after (effects trap epilogueInsns) m = m' at hloaded ⊢
  constructor
  . funext r
    rw [Machine.gpr_setGpr, Machine.gpr_setGpr, hloaded.gpr]
    split
    . rfl
    . next h => exact if_neg h
  . exact hloaded.lr
  . exact hloaded.ctr
  . exact hloaded.cr.trans p.cr
  . exact hloaded.rest.trans p.rest
  . intro addr haddr
    show m'.mem addr = m₀.mem addr
    rw [hloaded.mem]
    exact p.mem addr haddr

def fixedInsns (pathAddress toc : BitVec 32) : List Insn :=
  prologueInsns ++ syscallInsns pathAddress ++ epilogueInsns ++ loadImmediateInsns 2 toc

theorem decodes_fixed (pathAddress toc : BitVec 32)
    : Decodes (prologue ++ makeLoadAndStartModule pathAddress ++ epilogue ++ loadImmediate32 2 toc)
        (fixedInsns pathAddress toc) := by
  apply ((decodes_prologue.append (decodes_makeLoadAndStartModule pathAddress)).append
    decodes_epilogue).append
  exact decodes_loadImmediate32 2 toc

theorem isBranch_fixedInsns (pathAddress toc : BitVec 32)
    : ∀ i ∈ fixedInsns pathAddress toc, i.isBranch = false := by
  have hall : (fixedInsns pathAddress toc).all (fun i => !i.isBranch) = true := by
    rfl
  intro i hi
  have h := List.all_eq_true.mp hall i hi
  rw [Bool.not_eq_true'] at h
  exact h

/--
What the program has in its registers when the resumed instructions start, whatever the system calls
did.
-/
theorem agree_after_fixedInsns (htrap : KeepsCallers trap) (pathAddress toc : BitVec 32)
    (m : Machine ρ)
    : Agree (m.gpr 1) (after (effects trap (fixedInsns pathAddress toc)) m)
        (m.setGpr 2 (loadedImmediate toc)) := by
  have hpushed := (pushed_prologue trap m).keeps (keeps_syscallInsns trap htrap pathAddress _)
  have h := agree_after_epilogue trap hpushed (loadedImmediate toc)
  unfold fixedInsns
  simp only [effects_append, after_append]
  rw [after_loadImmediateInsns]
  exact ⟨h.gpr, h.lr, h.ctr, h.cr, h.rest, h.mem⟩

end Ps3patch
end ElfCraft
