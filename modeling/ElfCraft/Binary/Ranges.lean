import Mathlib.Data.List.Basic

/-!
This module contains ranges that have no position in common and runs of ranges that follow each other
without a gap. A range is the position of its first element and its length.
-/

namespace ElfCraft
namespace Binary

def InRange (range : Nat × Nat) (i : Nat) : Prop := range.1 ≤ i ∧ i < range.1 + range.2

def Apart (pos len pos' len' : Nat) : Prop :=
  len' = 0 ∨ pos + len ≤ pos' ∨ pos' + len' ≤ pos

instance (pos len pos' len' : Nat) : Decidable (Apart pos len pos' len') := by
  unfold Apart
  infer_instance

theorem apart_iff (pos len : Nat) (range : Nat × Nat) (h : 0 < len)
    : Apart pos len range.1 range.2 ↔ ∀ i, InRange (pos, len) i → ¬ InRange range i := by
  unfold Apart InRange
  constructor
  . intro hapart i hi
    omega
  . intro hall
    have hfirst := hall (max pos range.1)
    omega

def Consecutive (start : Nat) (ranges : List (Nat × Nat)) (stop : Nat) : Prop :=
  match ranges with
  | [] => start = stop
  | range :: ranges => range.1 = start ∧ Consecutive (start + range.2) ranges stop

namespace Consecutive

variable {start middle stop : Nat} {ranges ranges' : List (Nat × Nat)}

theorem append (h : Consecutive start ranges middle) (h' : Consecutive middle ranges' stop)
    : Consecutive start (ranges ++ ranges') stop := by
  induction ranges generalizing start with
  | nil =>
    simp only [Consecutive] at h
    rw [h]
    exact h'
  | cons range ranges ih =>
    simp only [Consecutive] at h
    exact ⟨h.left, ih h.right⟩

theorem shift (k : Nat) (h : Consecutive start ranges stop)
    : Consecutive (k + start) (ranges.map fun range => (k + range.1, range.2)) (k + stop) := by
  induction ranges generalizing start with
  | nil =>
    simp only [Consecutive] at h
    rw [h]
    rfl
  | cons range ranges ih =>
    simp only [Consecutive] at h
    have hrest := ih h.right
    rw [← Nat.add_assoc] at hrest
    exact ⟨congrArg (k + ·) h.left, hrest⟩

end Consecutive

end Binary
end ElfCraft
