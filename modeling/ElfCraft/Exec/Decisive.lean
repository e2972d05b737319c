import Mathlib.Data.List.Induction

/-!
This module contains runs of actions of which a single one counts: the last one that writes if it covers what
the others have written, the first one that writes if it keeps the others from writing.
-/

namespace ElfCraft
namespace Exec

variable {σ α : Type} {effect : σ → α → σ} {writes : σ → α → Bool} {P : α → Prop} {s : σ}

theorem filter_snoc_of_writes {as : List α} {b : α} (h : writes s b = true)
    : (as ++ [b]).filter (writes s) = as.filter (writes s) ++ [b] := by
  rw [List.filter_append, List.filter_cons_of_pos h, List.filter_nil]

theorem filter_snoc_of_idle {as : List α} {b : α} (h : writes s b = false)
    : (as ++ [b]).filter (writes s) = as.filter (writes s) := by
  rw [List.filter_append, List.filter_cons_of_neg (by simp [h]), List.filter_nil, List.append_nil]

/--
Whether an action writes does not depend on what was written before it, and it covers all of that.
-/
theorem foldl_eq_last (hidle : ∀ s' a, P a → writes s' a = false → effect s' a = s')
    (hstays : ∀ a b, P a → P b → writes (effect s a) b = writes s b)
    (hcovers : ∀ a b, P a → P b → writes s b = true → effect (effect s a) b = effect s b)
    (as : List α) (has : ∀ a ∈ as, P a)
    : as.foldl effect s = (as.filter (writes s)).getLast?.toList.foldl effect s := by
  induction as using List.reverseRecOn with
  | nil => rfl
  | append_singleton as b ih =>
    have hb : P b := has b (by simp)
    have hprev : ∀ a ∈ as, P a := fun a ha => has a (List.mem_append_left _ ha)
    rw [List.foldl_append, ih hprev]
    cases hlast : (as.filter (writes s)).getLast? with
    | none =>
      cases hwrites : writes s b with
      | false =>
        rw [filter_snoc_of_idle hwrites, hlast]
        apply hidle s b hb hwrites
      | true =>
        rw [filter_snoc_of_writes hwrites, List.getLast?_concat]
        rfl
    | some a =>
      have ha : P a := hprev a (List.mem_filter.mp (List.mem_of_getLast? hlast)).left
      cases hwrites : writes s b with
      | false =>
        rw [filter_snoc_of_idle hwrites, hlast]
        rw [← hstays a b ha hb] at hwrites
        apply hidle (effect s a) b hb hwrites
      | true =>
        rw [filter_snoc_of_writes hwrites, List.getLast?_concat]
        apply hcovers a b ha hb hwrites

/--
Behind an action that has written no action writes.
-/
theorem foldl_eq_first (hidle : ∀ s' a, P a → writes s' a = false → effect s' a = s')
    (hlocks : ∀ a b, P a → P b → writes s a = true → writes (effect s a) b = false)
    (as : List α) (has : ∀ a ∈ as, P a)
    : as.foldl effect s = (as.filter (writes s)).head?.toList.foldl effect s := by
  induction as using List.reverseRecOn with
  | nil => rfl
  | append_singleton as b ih =>
    have hb : P b := has b (by simp)
    have hprev : ∀ a ∈ as, P a := fun a ha => has a (List.mem_append_left _ ha)
    rw [List.foldl_append, ih hprev]
    cases hfirst : (as.filter (writes s)).head? with
    | none =>
      have hnil := List.head?_eq_none_iff.mp hfirst
      cases hwrites : writes s b with
      | false =>
        rw [filter_snoc_of_idle hwrites, hfirst]
        apply hidle s b hb hwrites
      | true =>
        rw [filter_snoc_of_writes hwrites, hnil]
        rfl
    | some a =>
      have hmem := List.mem_filter.mp (List.mem_of_head? hfirst)
      have hidle' := hidle (effect s a) b hb (hlocks a b (hprev a hmem.left) hb hmem.right)
      have hsame : ((as ++ [b]).filter (writes s)).head? = some a := by
        rw [List.filter_append, List.head?_append, hfirst, Option.some_or]
      rw [hsame]
      apply hidle'

end Exec
end ElfCraft
