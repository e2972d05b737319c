import Mathlib.Computability.StateTransition

/-!
This module contains runs of a partial step function up to the first state that stops: what such a run
ends in is unique, a block of effects takes it forward and an invariant shows that it never ends.
-/

namespace ElfCraft
namespace Exec

open StateTransition

variable {σ : Type} (step : σ → Option σ) (stop : σ → Prop) [DecidablePred stop]

def go (s : σ) : Option σ := if stop s then none else step s

/--
The run from `s` ends in `s'`, the first of its states that stops.
-/
def Until (s s' : σ) : Prop := Reaches (go step stop) s s' ∧ stop s'

section Until

variable {step} {stop}

theorem mem_go_iff (s s' : σ) : s' ∈ go step stop s ↔ ¬ stop s ∧ step s = some s' := by
  unfold go
  split
  . next h => simp [h]
  . next h => simp [h]

theorem reaches_of_stop {s s' : σ} (hstop : stop s) (h : Reaches (go step stop) s s') : s' = s := by
  rcases Relation.ReflTransGen.cases_head h with heq | ⟨t, ht, -⟩
  . exact heq.symm
  . rw [mem_go_iff] at ht
    exact absurd hstop ht.left

/--
What a run has passed through already does not matter for its end.
-/
theorem Until.of_reaches {s t s' : σ} (h : Until step stop s s') (ht : Reaches (go step stop) s t)
    : Until step stop t s' := by
  obtain ⟨hreach, hstop⟩ := h
  rcases reaches_total hreach ht with hback | hforth
  . rw [reaches_of_stop hstop hback]
    exact ⟨.refl, hstop⟩
  . exact ⟨hforth, hstop⟩

theorem Until.unique {s s' s'' : σ} (h' : Until step stop s s') (h'' : Until step stop s s'')
    : s' = s'' := by
  obtain ⟨hreach, -⟩ := h''.of_reaches h'.left
  exact (reaches_of_stop h'.right hreach).symm

theorem Until.of_stop {s s' : σ} (h : Until step stop s s') (hstop : stop s) : s' = s := by
  exact reaches_of_stop hstop h.left

/--
The rule for runs without an end: an invariant that no stopping state satisfies.
-/
theorem not_until_of_invariant (I : σ → Prop) {s s' : σ} (hinit : I s)
    (hstep : ∀ t t', I t → step t = some t' → I t') (hstop : ∀ t, I t → ¬ stop t)
    : ¬ Until step stop s s' := by
  rintro ⟨hreach, hend⟩
  have hkeep : I s' := by
    clear hend
    induction hreach with
    | refl => exact hinit
    | tail _ ht ih =>
      rw [mem_go_iff] at ht
      exact hstep _ _ ih ht.right
  exact hstop s' hkeep hend

/--
The rule for simulations: a step function that can do whatever `step` does ends where `step` does.
-/
theorem Until.mono {step' : σ → Option σ} (hstep : ∀ s s', step s = some s' → step' s = some s') {s s' : σ}
    (h : Until step stop s s')
    : Until step' stop s s' := by
  refine ⟨?_, h.right⟩
  apply Relation.ReflTransGen.mono _ _ _ h.left
  intro t t' ht
  rw [mem_go_iff] at *
  exact ⟨ht.left, hstep t t' ht.right⟩

theorem not_until_of_stuck {s s' : σ} (hstep : step s = none) (hstop : ¬ stop s)
    : ¬ Until step stop s s' := by
  apply not_until_of_invariant (fun t => t = s) rfl
  . intro t t' ht hsome
    rw [ht, hstep] at hsome
    contradiction
  . intro t ht
    rw [ht]
    exact hstop

end Until

/--
The states behind a run of effects, one after the other.
-/
def after (effects : List (σ → σ)) (s : σ) : σ := effects.foldl (fun s f => f s) s

theorem after_append (fs gs : List (σ → σ)) (s : σ) : after (fs ++ gs) s = after gs (after fs s) := by
  unfold after
  rw [List.foldl_append]

theorem after_cons (f : σ → σ) (fs : List (σ → σ)) (s : σ) : after (f :: fs) s = after fs (f s) := by
  rfl

variable {step} {stop}

/--
The rule for blocks: whenever the effects before the `k`-th one have been executed, the next step is
the `k`-th one.
-/
theorem reaches_after (fs : List (σ → σ)) (s : σ)
    (h : ∀ k f, fs[k]? = some f →
      ¬ stop (after (fs.take k) s) ∧ step (after (fs.take k) s) = some (f (after (fs.take k) s)))
    : Reaches (go step stop) s (after fs s) := by
  induction fs generalizing s with
  | nil => exact .refl
  | cons f fs ih =>
    have hfirst := h 0 f rfl
    rw [List.take_zero] at hfirst
    apply Relation.ReflTransGen.head (b := f s)
    . rw [mem_go_iff]
      exact hfirst
    . rw [after_cons]
      apply ih
      intro k g hg
      have hnext := h (k + 1) g hg
      rw [List.take_succ_cons, after_cons] at hnext
      exact hnext

/--
A relation that every effect keeps to what it was applied to, reflexive and transitive, is kept by all
of them.
-/
theorem after_induction (R : σ → σ → Prop) (hrefl : ∀ s, R s s)
    (htrans : ∀ s t u, R s t → R t u → R s u) (fs : List (σ → σ)) (s : σ)
    (h : ∀ f ∈ fs, ∀ t, R t (f t))
    : R s (after fs s) := by
  induction fs generalizing s with
  | nil => exact hrefl s
  | cons f fs ih =>
    rw [after_cons]
    apply htrans s (f s)
    . exact h f List.mem_cons_self s
    . apply ih
      intro g hg
      exact h g (List.mem_cons_of_mem f hg)

section Code

variable {w : Nat} (pc : σ → BitVec w) (d : Nat)

theorem pc_after (fs : List (σ → σ)) (s : σ) (h : ∀ f ∈ fs, ∀ t, pc (f t) = pc t + BitVec.ofNat w d)
    : pc (after fs s) = pc s + BitVec.ofNat w (d * fs.length) := by
  induction fs generalizing s with
  | nil =>
    rw [List.length_nil, Nat.mul_zero, BitVec.add_zero]
    rfl
  | cons f fs ih =>
    rw [after_cons, ih (f s) (fun g hg => h g (List.mem_cons_of_mem f hg)), h f List.mem_cons_self]
    rw [List.length_cons, Nat.mul_succ, BitVec.add_assoc, ← BitVec.ofNat_add, Nat.add_comm d]

/--
The rule for code at consecutive addresses, only the last instruction of the block may leave it.
-/
theorem reaches_block (fs : List (σ → σ)) (s : σ)
    (hseq : ∀ f ∈ fs.dropLast, ∀ t, pc (f t) = pc t + BitVec.ofNat w d)
    (hstep : ∀ k f, fs[k]? = some f → ∀ t, pc t = pc s + BitVec.ofNat w (d * k) →
      ¬ stop t ∧ step t = some (f t))
    : Reaches (go step stop) s (after fs s) := by
  apply reaches_after
  intro k f hf
  apply hstep k f hf
  have hk := (List.getElem?_eq_some_iff.mp hf).choose
  rw [pc_after pc d, List.length_take_of_le (by omega)]
  intro g hg
  apply hseq g
  rw [List.dropLast_eq_take]
  exact List.take_subset_take_left fs (by omega) hg

end Code

end Exec
end ElfCraft
