import ElfCraft.Exec.Until

/-!
This module contains runs together with what can be observed of them: the states that are visible from the
outside, in the order in which a run goes through them.
-/

namespace ElfCraft
namespace Exec

open StateTransition

variable {σ : Type} (step : σ → Option σ) (visible stop : σ → Prop)

/--
The run from `s` ends in `s'`, the first of its states that stops, and `seen` are the visible ones before that.
-/
inductive Observed : σ → List σ → σ → Prop where
  | stop (s : σ) (hstop : stop s) : Observed s [] s
  | silent (s t s' : σ) (seen : List σ) (hstop : ¬ stop s) (hsilent : ¬ visible s) (hstep : step s = some t)
      (hrest : Observed t seen s')
      : Observed s seen s'
  | visible (s t s' : σ) (seen : List σ) (hstop : ¬ stop s) (hvisible : visible s) (hstep : step s = some t)
      (hrest : Observed t seen s')
      : Observed s (s :: seen) s'

namespace Observed

variable {step visible stop}

/--
A run up to the next state that is visible or stops adds nothing to what is seen.
-/
theorem of_reaches [DecidablePred fun s => visible s ∨ stop s] {s t s' : σ} {seen : List σ}
    (hreach : Reaches (go step fun s => visible s ∨ stop s) s t) (h : Observed step visible stop t seen s')
    : Observed step visible stop s seen s' := by
  induction hreach using Relation.ReflTransGen.head_induction_on with
  | refl => exact h
  | head hfirst _ ih =>
    rw [mem_go_iff, not_or] at hfirst
    exact .silent _ _ _ _ hfirst.left.right hfirst.left.left hfirst.right ih

/--
Without what is seen it is a run.
-/
theorem erase [DecidablePred stop] {s s' : σ} {seen : List σ} (h : Observed step visible stop s seen s')
    : Until step stop s s' := by
  induction h with
  | stop s hstop => exact ⟨.refl, hstop⟩
  | silent s t s' seen hstop _ hstep _ ih =>
    refine ⟨.head ?_ ih.left, ih.right⟩
    rw [mem_go_iff]
    exact ⟨hstop, hstep⟩
  | visible s t s' seen hstop _ hstep _ ih =>
    refine ⟨.head ?_ ih.left, ih.right⟩
    rw [mem_go_iff]
    exact ⟨hstop, hstep⟩

end Observed

end Exec
end ElfCraft
