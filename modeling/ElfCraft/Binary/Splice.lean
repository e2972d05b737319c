import Mathlib.Data.List.Basic

/-!
This module contains in place writes to a list: `splice` overwrites a run of elements, `slice` reads
one. A write that starts inside of the list and ends behind it makes the list longer.
-/

namespace ElfCraft
namespace Binary

variable {α : Type}

def slice (xs : List α) (pos len : Nat) : List α :=
  (xs.drop pos).take len

def splice (xs : List α) (pos : Nat) (ys : List α) : List α :=
  xs.take pos ++ ys ++ xs.drop (pos + ys.length)

theorem length_slice (xs : List α) (pos len : Nat) (h : pos + len ≤ xs.length)
    : (slice xs pos len).length = len := by
  unfold slice
  rw [List.length_take, List.length_drop]
  omega

theorem getElem?_slice (xs : List α) (pos len i : Nat)
    : (slice xs pos len)[i]? = if i < len then xs[pos + i]? else none := by
  unfold slice
  rw [List.getElem?_take, List.getElem?_drop]

theorem length_splice' (xs ys : List α) (pos : Nat) (h : pos ≤ xs.length)
    : (splice xs pos ys).length = max xs.length (pos + ys.length) := by
  unfold splice
  simp only [List.length_append, List.length_take, List.length_drop]
  omega

theorem length_splice (xs ys : List α) (pos : Nat) (h : pos + ys.length ≤ xs.length)
    : (splice xs pos ys).length = xs.length := by
  rw [length_splice' _ _ _ (by omega)]
  omega

theorem getElem?_splice (xs ys : List α) (pos i : Nat) (h : pos ≤ xs.length)
    : (splice xs pos ys)[i]?
        =
      if pos ≤ i ∧ i < pos + ys.length then ys[i - pos]? else xs[i]? := by
  unfold splice
  have htake : (xs.take pos).length = pos := by
    rw [List.length_take]
    omega
  rw [List.append_assoc]
  split
  . next hi =>
    rw [List.getElem?_append_right (by omega), htake]
    rw [List.getElem?_append_left (by omega)]
  . next hi =>
    rcases Nat.lt_or_ge i pos with hlt | hge
    . rw [List.getElem?_append_left (by omega), List.getElem?_take]
      simp only [hlt, ↓reduceIte]
    . rw [List.getElem?_append_right (by omega), htake]
      rw [List.getElem?_append_right (by omega), List.getElem?_drop]
      congr 1
      omega

theorem getElem?_splice_of_mem (xs ys : List α) (pos i : Nat) (h : pos ≤ xs.length)
    (h1 : pos ≤ i) (h2 : i < pos + ys.length)
    : (splice xs pos ys)[i]? = ys[i - pos]? := by
  rw [getElem?_splice xs ys pos i h]
  simp only [h1, h2, and_self, ↓reduceIte]

theorem getElem?_splice_of_not_mem (xs ys : List α) (pos i : Nat) (h : pos ≤ xs.length)
    (hi : i < pos ∨ pos + ys.length ≤ i)
    : (splice xs pos ys)[i]? = xs[i]? := by
  rw [getElem?_splice xs ys pos i h]
  have : ¬ (pos ≤ i ∧ i < pos + ys.length) := by omega
  simp only [this, ↓reduceIte]

@[simp]
theorem splice_nil (xs : List α) (pos : Nat) : splice xs pos [] = xs := by
  unfold splice
  simp

theorem splice_slice (xs : List α) (pos len : Nat) (h : pos + len ≤ xs.length)
    : splice xs pos (slice xs pos len) = xs := by
  have hlen := length_slice xs pos len h
  apply List.ext_getElem?
  intro i
  rw [getElem?_splice _ _ _ _ (by omega), getElem?_slice, hlen]
  split
  . next hi =>
    have h1 : i - pos < len := by omega
    have h2 : pos + (i - pos) = i := by omega
    simp only [h1, h2, ↓reduceIte]
  . rfl

theorem slice_splice_self (xs ys : List α) (pos : Nat) (h : pos ≤ xs.length)
    : slice (splice xs pos ys) pos ys.length = ys := by
  apply List.ext_getElem?
  intro i
  rw [getElem?_slice]
  split
  . next hi =>
    rw [getElem?_splice_of_mem _ _ _ _ h (by omega) (by omega)]
    congr 1
    omega
  . next hi =>
    rw [List.getElem?_eq_none (by omega)]

theorem slice_congr (xs zs : List α) (pos len : Nat)
    (h : ∀ i, pos ≤ i → i < pos + len → xs[i]? = zs[i]?)
    : slice xs pos len = slice zs pos len := by
  apply List.ext_getElem?
  intro i
  rw [getElem?_slice, getElem?_slice]
  split
  . apply h <;> omega
  . rfl

theorem slice_splice_of_disjoint (xs ys : List α) (pos pos' len : Nat)
    (h : pos ≤ xs.length) (hdisj : pos' + len ≤ pos ∨ pos + ys.length ≤ pos')
    : slice (splice xs pos ys) pos' len = slice xs pos' len := by
  apply slice_congr
  intro i h1 h2
  rw [getElem?_splice_of_not_mem _ _ _ _ h (by omega)]

theorem slice_splice_of_apart (xs ys : List α) (pos pos' len : Nat) (h : pos ≤ xs.length)
    (hapart : ys.length = 0 ∨ len = 0 ∨ pos' + len ≤ pos ∨ pos + ys.length ≤ pos')
    : slice (splice xs pos ys) pos' len = slice xs pos' len := by
  apply slice_congr
  intro i h1 h2
  rw [getElem?_splice _ _ _ _ h, if_neg (by omega)]

theorem slice_append_left (xs zs : List α) (pos len : Nat) (h : pos + len ≤ xs.length)
    : slice (xs ++ zs) pos len = slice xs pos len := by
  apply slice_congr
  intro i h1 h2
  rw [List.getElem?_append_left (by omega)]

theorem slice_append_right (xs zs : List α) (len : Nat) (h : zs.length = len)
    : slice (xs ++ zs) xs.length len = zs := by
  unfold slice
  rw [List.drop_left, ← h, List.take_length]

theorem slice_append_middle (xs ys zs : List α)
    : slice (xs ++ ys ++ zs) xs.length ys.length = ys := by
  unfold slice
  rw [List.append_assoc, List.drop_left, List.take_left]

theorem slice_slice (xs : List α) (pos len pos' len' : Nat) (h : pos' + len' ≤ len)
    : slice (slice xs pos len) pos' len' = slice xs (pos + pos') len' := by
  apply List.ext_getElem?
  intro i
  rw [getElem?_slice, getElem?_slice, getElem?_slice]
  split
  . have h1 : pos' + i < len := by omega
    have h2 : pos + (pos' + i) = pos + pos' + i := by omega
    simp only [h1, h2, ↓reduceIte]
  . rfl

theorem splice_append (xs ys zs : List α) (pos : Nat) (h : pos ≤ xs.length)
    : splice (splice xs pos ys) (pos + ys.length) zs = splice xs pos (ys ++ zs) := by
  have htake : (xs.take pos ++ ys).length = pos + ys.length := by
    rw [List.length_append, List.length_take]
    omega
  unfold splice
  rw [List.take_left' htake, ← List.drop_drop, List.drop_left' htake, List.drop_drop,
    List.length_append]
  simp only [List.append_assoc, Nat.add_assoc]

theorem splice_append_middle (xs ys ys' zs : List α) (h : ys'.length = ys.length)
    : splice (xs ++ ys ++ zs) xs.length ys' = xs ++ ys' ++ zs := by
  have hfront : xs.length + ys'.length = (xs ++ ys).length := by
    rw [List.length_append, h]
  unfold splice
  rw [hfront, List.drop_left, List.append_assoc xs, List.take_left]

/--
Writes to different places may be exchanged, the later one may reach beyond the end.
-/
theorem splice_comm (xs ys zs : List α) (pos pos' : Nat) (h : pos + ys.length ≤ pos') (h' : pos' ≤ xs.length)
    : splice (splice xs pos ys) pos' zs = splice (splice xs pos' zs) pos ys := by
  have hlen := length_splice xs ys pos (by omega)
  have hlen' := length_splice' xs zs pos' h'
  apply List.ext_getElem?
  intro i
  rw [getElem?_splice _ _ _ _ (by omega), getElem?_splice _ _ _ _ (by omega), getElem?_splice _ _ _ _ (by omega),
    getElem?_splice _ _ _ _ (by omega)]
  by_cases hin : pos ≤ i ∧ i < pos + ys.length
  . rw [if_neg (by omega), if_pos hin, if_pos hin]
  . rw [if_neg hin, if_neg hin]

theorem splice_append_right (xs zs ys : List α) (pos : Nat) (h : pos ≤ xs.length)
    (hlen : xs.length + zs.length ≤ pos + ys.length)
    : splice (xs ++ zs) pos ys = splice xs pos ys := by
  unfold splice
  rw [List.take_append_of_le_length h, List.drop_eq_nil_of_le (by rw [List.length_append]; omega),
    List.drop_eq_nil_of_le (by omega)]

/--
Elements that a write covers do not have to be there before it.
-/
theorem splice_append_replicate (xs ys : List α) (a : α) (start : Nat) (h : start ≤ xs.length)
    : splice (xs ++ List.replicate (start + ys.length - xs.length) a) start ys = splice xs start ys := by
  rcases Nat.lt_or_ge xs.length (start + ys.length) with hlt | hge
  . rw [splice_append_right _ _ _ _ h]
    rw [List.length_replicate]
    omega
  . rw [Nat.sub_eq_zero_of_le hge, List.replicate_zero, List.append_nil]

theorem splice_append_of_inside (xs zs ys : List α) (pos : Nat) (h : pos + ys.length ≤ xs.length)
    : splice (xs ++ zs) pos ys = splice xs pos ys ++ zs := by
  unfold splice
  rw [List.take_append_of_le_length (by omega), List.drop_append_of_le_length h]
  simp only [List.append_assoc]

theorem splice_append_length_add (xs zs ys : List α) (pos : Nat)
    : splice (xs ++ zs) (xs.length + pos) ys = xs ++ splice zs pos ys := by
  unfold splice
  rw [List.take_length_add_append, Nat.add_assoc, List.drop_length_add_append]
  simp only [List.append_assoc]

theorem getElem?_splice_slice (xs ys : List α) (pos len i : Nat) (hx : pos + len ≤ xs.length)
    (hy : pos + len ≤ ys.length)
    : (splice xs pos (slice ys pos len))[i]? = if pos ≤ i ∧ i < pos + len then ys[i]? else xs[i]? := by
  rw [getElem?_splice _ _ _ _ (by omega), length_slice _ _ _ hy]
  split
  . next hi =>
    rw [getElem?_slice, if_pos (by omega)]
    congr 1
    omega
  . rfl

-- Writes one after the other.
def splices (xs : List α) (writes : List (Nat × List α)) : List α :=
  writes.foldl (fun xs write => splice xs write.1 write.2) xs

end Binary
end ElfCraft
