import ElfCraft.Binary.Splice

/-!
This module contains data that is looked at in some places only, and data that is made from it: what nobody looks
at is copied at most.
-/

namespace ElfCraft
namespace Binary

variable {α : Type}

-- Lists of one length with the same items wherever they are seen.
def AgreeOn (seen : Nat → Prop) (xs ys : List α) : Prop :=
  ys.length = xs.length ∧ ∀ i, seen i → ys[i]? = xs[i]?

namespace AgreeOn

variable {seen : Nat → Prop} {xs ys : List α}

theorem slice_eq (h : AgreeOn seen xs ys) (pos len : Nat) (hseen : ∀ i, pos ≤ i → i < pos + len → seen i)
    : slice ys pos len = slice xs pos len := by
  apply slice_congr
  intro i hlower hupper
  apply h.right i (hseen i hlower hupper)

theorem symm {seen' : Nat → Prop} (h : AgreeOn seen xs ys) (hseen : ∀ i, seen' i → seen i)
    : AgreeOn seen' ys xs := by
  refine ⟨h.left.symm, ?_⟩
  intro i hi
  rw [h.right i (hseen i hi)]

end AgreeOn

/--
`xs'` is made from `src'` like `xs` from `src`: the items are the same, or both are copied from their source.
-/
structure Copied (src src' xs xs' : List α) : Prop where
  length : xs'.length = xs.length
  items : ∀ (i : Nat), xs'[i]? = xs[i]? ∨ (xs[i]? = src[i]? ∧ xs'[i]? = src'[i]?)

namespace Copied

theorem refl {src src' : List α} (h : src'.length = src.length) : Copied src src' src src' := by
  refine ⟨h, ?_⟩
  intro i
  exact .inr ⟨rfl, rfl⟩

variable {src src' xs xs' : List α} (h : Copied src src' xs xs')
include h

theorem append (ys : List α) : Copied src src' (xs ++ ys) (xs' ++ ys) := by
  constructor
  . rw [List.length_append, List.length_append, h.length]
  . intro i
    cases Nat.lt_or_ge i xs.length with
    | inl hlt =>
      rw [List.getElem?_append_left hlt, List.getElem?_append_left (by rw [h.length]; exact hlt)]
      apply h.items
    | inr hge =>
      left
      rw [List.getElem?_append_right hge, List.getElem?_append_right (by rw [h.length]; exact hge), h.length]

theorem splice (ys : List α) (pos : Nat) (hpos : pos ≤ xs.length)
    : Copied src src' (splice xs pos ys) (splice xs' pos ys) := by
  have hlen := h.length
  constructor
  . rw [length_splice' _ _ _ hpos, length_splice' _ _ _ (by omega), hlen]
  . intro i
    rw [getElem?_splice _ _ _ _ hpos, getElem?_splice _ _ _ _ (by omega)]
    split
    . exact .inl rfl
    . apply h.items

end Copied

end Binary
end ElfCraft
