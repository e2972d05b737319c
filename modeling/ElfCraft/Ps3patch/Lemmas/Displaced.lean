import ElfCraft.Ppc.Lemmas.Block
import ElfCraft.Ppc.Lemmas.Memory
import ElfCraft.Ppc.Lemmas.Moved
import ElfCraft.Ps3patch.Hijack

/-!
This module contains which displaced instructions do the same behind the trampoline as at their own address:
every one that neither branches nor calls the kernel and loads nothing from below the stack pointer.
-/

namespace ElfCraft
namespace Ps3patch

open Binary Ppc Exec

variable {ρ : Type} {sp : BitVec 64}

theorem Agree.refl (s : Machine ρ) : Agree sp s s := by
  exact ⟨rfl, rfl, rfl, rfl, rfl, fun _ _ => rfl⟩

theorem Agree.next {s t : Machine ρ} (h : Agree sp s t) : Agree sp s.next t.next := by
  exact ⟨h.gpr, h.lr, h.ctr, h.cr, h.rest, h.mem⟩

theorem Agree.setGpr {s t : Machine ρ} (h : Agree sp s t) (r : BitVec 5) {v v' : BitVec 64} (hv : v = v')
    : Agree sp (s.setGpr r v) (t.setGpr r v') := by
  refine ⟨?_, h.lr, h.ctr, h.cr, h.rest, h.mem⟩
  unfold Machine.setGpr
  rw [h.gpr, hv]

theorem Agree.base {s t : Machine ρ} (h : Agree sp s t) (ra : BitVec 5) : s.base ra = t.base ra := by
  unfold Machine.base
  rw [h.gpr]

theorem Agree.store64 {s t : Machine ρ} (h : Agree sp s t) {addr addr' v v' : BitVec 64} (haddr : addr = addr')
    (hv : v = v')
    : Agree sp { s with mem := store64 s.mem addr v } { t with mem := store64 t.mem addr' v' } := by
  refine ⟨h.gpr, h.lr, h.ctr, h.cr, h.rest, ?_⟩
  intro a ha
  show Ppc.store64 s.mem addr v a = Ppc.store64 t.mem addr' v' a
  unfold Ppc.store64
  rw [haddr, hv, h.mem a ha]

-- The memory that a load reads.
def AboveAt (sp ea : BitVec 64) : Prop := ∀ j < 8, ¬ Below sp (ea + BitVec.ofNat 64 j)

instance (sp ea : BitVec 64) : Decidable (AboveAt sp ea) := by
  unfold AboveAt Below InFrame
  infer_instance

theorem Agree.load64 {s t : Machine ρ} (h : Agree sp s t) {ea : BitVec 64} (hea : AboveAt sp ea)
    : load64 s.mem ea = load64 t.mem ea := by
  apply load64_congr
  intro j hj
  exact h.mem _ (hea j hj)

-- Where an instruction loads from.
def loadAddress (i : Insn) (m : Machine ρ) : Option (BitVec 64) :=
  match i with
  | .ld _ ra ds => some (m.base ra + extsDs ds)
  | .ldu _ ra ds => some (m.gpr ra + extsDs ds)
  | _ => none

theorem Agree.loadAddress {s t : Machine ρ} (h : Agree sp s t) (i : Insn)
    : loadAddress i s = loadAddress i t := by
  cases i with
  | ld rt ra ds => exact congrArg (fun base => some (base + extsDs ds)) (h.base ra)
  | ldu rt ra ds => exact congrArg (fun gpr => some (gpr ra + extsDs ds)) h.gpr
  | _ => rfl

/--
An instruction that neither branches nor calls the kernel agrees with itself wherever it loads from the memory
that is not below the stack pointer. What it stores is the same at the same address.
-/
theorem agree_exec (trap : Machine ρ → Machine ρ) {i : Insn} (hbranch : i.isBranch = false) (hsc : i ≠ .sc)
    {s t : Machine ρ} (h : Agree sp s t) (hload : ∀ ea ∈ loadAddress i t, AboveAt sp ea)
    : Agree sp (exec trap i s) (exec trap i t) := by
  cases i with
  | addi rt ra si => exact (h.setGpr rt (by rw [h.base])).next
  | addis rt ra si => exact (h.setGpr rt (by rw [h.base])).next
  | ori ra rs ui => exact (h.setGpr ra (by rw [h.gpr])).next
  | rldicl ra rs sh mb => exact (h.setGpr ra (by rw [h.gpr])).next
  | mtspr rs spr =>
    cases spr with
    | lr => exact ⟨h.gpr, congrFun h.gpr rs, h.ctr, h.cr, h.rest, h.mem⟩
    | ctr => exact ⟨h.gpr, h.lr, congrFun h.gpr rs, h.cr, h.rest, h.mem⟩
  | mfspr rt spr =>
    cases spr with
    | lr => exact (h.setGpr rt h.lr).next
    | ctr => exact (h.setGpr rt h.ctr).next
  | std rs ra ds => exact (h.store64 (by rw [h.base]) (congrFun h.gpr rs)).next
  | stdu rs ra ds =>
    exact ((h.store64 (by rw [h.gpr]) (congrFun h.gpr rs)).setGpr ra (by rw [h.gpr])).next
  | ld rt ra ds =>
    have habove := hload _ rfl
    refine (h.setGpr rt ?_).next
    rw [h.base]
    exact h.load64 habove
  | ldu rt ra ds =>
    have habove := hload _ rfl
    refine ((h.setGpr rt ?_).setGpr ra (by rw [h.gpr])).next
    rw [h.gpr]
    exact h.load64 habove
  | sc => contradiction
  | _ => contradiction

theorem stepsAlike_exec {trap : Machine ρ → Machine ρ} (htrap : ∀ m, (trap m).cia = m.cia + 4) {i : Insn}
    (hbranch : i.isBranch = false) (hsc : i ≠ .sc) {t : Machine ρ}
    (hload : ∀ ea ∈ loadAddress i t, AboveAt sp ea)
    : StepsAlike sp (exec trap i) t := by
  constructor
  . intro m _
    exact cia_exec trap htrap i hbranch m
  . intro m h
    exact agree_exec trap hbranch hsc h hload

/--
A load that is left out below the stack pointer is `Displaceable`.
-/
def guarded (sp : BitVec 64) (trap : Machine ρ → Machine ρ) (i : Insn) (m : Machine ρ) : Machine ρ :=
  if ∀ ea ∈ loadAddress i m, AboveAt sp ea then exec trap i m else m.next

theorem displaceable_guarded {trap : Machine ρ → Machine ρ} (htrap : ∀ m, (trap m).cia = m.cia + 4) {i : Insn}
    (hbranch : i.isBranch = false) (hsc : i ≠ .sc)
    : Displaceable sp (guarded sp trap i) := by
  constructor
  . intro m
    unfold guarded
    split
    . exact cia_exec trap htrap i hbranch m
    . rfl
  . intro s t h
    unfold guarded
    rw [h.loadAddress i]
    split
    . next hload => exact agree_exec trap hbranch hsc h hload
    . exact h.next

/-
Runs of them.
-/

theorem alikeAlong_cons_iff (f : Machine ρ → Machine ρ) (fs : List (Machine ρ → Machine ρ)) (t : Machine ρ)
    : AlikeAlong sp (f :: fs) t ↔ StepsAlike sp f t ∧ AlikeAlong sp fs (f t) := by
  constructor
  . intro h
    refine ⟨h 0 f rfl, ?_⟩
    intro k g hg
    exact h (k + 1) g hg
  . rintro ⟨hfirst, hrest⟩ k g hg
    cases k with
    | zero =>
      rw [← Option.some.inj hg]
      exact hfirst
    | succ k => exact hrest k g hg

theorem alikeAlong_of_decode {trap : Machine ρ → Machine ρ} (htrap : ∀ m, (trap m).cia = m.cia + 4)
    (other : Instruction → Machine ρ → Machine ρ) {w : Instruction} {i : Insn} (hdecode : decode w = some i)
    (hbranch : i.isBranch = false) (hsc : i ≠ .sc) {t : Machine ρ}
    (hload : ∀ ea ∈ loadAddress i t, AboveAt sp ea)
    : AlikeAlong sp ([w].map (execWord trap other)) t := by
  have hexec : execWord trap other w = exec trap i := by
    funext m
    unfold execWord
    rw [hdecode]
  rw [List.map_singleton, alikeAlong_cons_iff, hexec]
  constructor
  . exact stepsAlike_exec htrap hbranch hsc hload
  . intro k f hf
    contradiction

-- `ld r3, 8(r1)` keeps to the memory above the stack pointer.
example {trap : Machine ρ → Machine ρ} (htrap : ∀ m, (trap m).cia = m.cia + 4)
    (other : Instruction → Machine ρ → Machine ρ) (t : Machine ρ) (h : t.gpr 1 = 0x1000)
    : AlikeAlong 0x1000 ([0xE8610008].map (execWord trap other)) t := by
  apply alikeAlong_of_decode htrap other (show decode 0xE8610008 = some (.ld 3 1 2) by decide) rfl (by decide)
  intro ea hea
  replace hea : t.gpr 1 + extsDs 2 = ea := Option.some.inj hea
  rw [← hea, h]
  decide

theorem alikeAlong_of_displaceable {sem : Instruction → Machine ρ → Machine ρ} {ws : List Instruction}
    (h : ∀ w ∈ ws, Displaceable sp (sem w)) (t : Machine ρ)
    : AlikeAlong sp (ws.map sem) t := by
  intro k f hf
  rw [List.getElem?_map, Option.map_eq_some_iff] at hf
  have ⟨w, hw, heq⟩ := hf
  have hdisplaceable := h w (List.mem_of_getElem? hw)
  rw [← heq]
  constructor
  . intro m _
    exact hdisplaceable.next m
  . intro m hm
    exact hdisplaceable.agree m _ hm

/--
After each of the instructions the states still agree, and the instructions have been executed one after the other.
-/
theorem AlikeAlong.after_take {fs : List (Machine ρ → Machine ρ)} {s t : Machine ρ} (h : AlikeAlong sp fs t)
    (hst : Agree sp s t) {k : Nat} (hk : k ≤ fs.length)
    : Agree sp (after (fs.take k) s) (after (fs.take k) t)
        ∧ (after (fs.take k) s).cia = s.cia + BitVec.ofNat 64 (4 * k) := by
  induction fs generalizing s t k with
  | nil =>
    rw [List.length_nil, Nat.le_zero] at hk
    rw [hk]
    exact ⟨hst, (BitVec.add_zero _).symm⟩
  | cons f fs ih =>
    cases k with
    | zero => exact ⟨hst, (BitVec.add_zero _).symm⟩
    | succ k =>
      have ⟨hfirst, hrest⟩ := (alikeAlong_cons_iff f fs t).mp h
      rw [List.length_cons, Nat.add_le_add_iff_right] at hk
      have ⟨hagree, hcia⟩ := ih hrest (hfirst.agree s hst) hk
      rw [List.take_succ_cons, after_cons, after_cons]
      refine ⟨hagree, ?_⟩
      rw [hcia, hfirst.next s hst, BitVec.add_assoc]
      congr 1
      rw [Nat.mul_succ, Nat.add_comm, BitVec.ofNat_add]
      rfl

end Ps3patch
end ElfCraft
