import ElfCraft.Binary.Splice

/-!
This module contains memory images: parts of a file that are mapped to addresses, the first mapping of an
address decides what is there. Appending to the file and mapping what was appended only adds addresses,
overwriting a part of the file changes what is mapped from there and nothing else.
-/

namespace ElfCraft
namespace Binary

variable {α : Type}

/--
The items of `data` are in the file from `offset` on and in memory from `base` on.
-/
structure Mapping (α : Type) where
  base : Nat
  offset : Nat
  data : List α

namespace Mapping

def get (m : Mapping α) (a : Nat) : Option α := if m.base ≤ a then m.data[a - m.base]? else none

-- The position in the file of what is at the address.
def place (m : Mapping α) (a : Nat) : Nat := m.offset + (a - m.base)

def Contains (m : Mapping α) (a : Nat) : Prop := m.base ≤ a ∧ a < m.base + m.data.length

instance (m : Mapping α) (a : Nat) : Decidable (m.Contains a) := by
  unfold Contains
  infer_instance

theorem get_of_contains {m : Mapping α} {a : Nat} (h : m.Contains a) : m.get a = m.data[a - m.base]? := by
  apply if_pos h.left

theorem get_eq_none_iff (m : Mapping α) (a : Nat) : m.get a = none ↔ ¬ m.Contains a := by
  unfold Mapping.get Contains
  split
  . rw [List.getElem?_eq_none_iff]
    omega
  . simp only [true_iff]
    omega

/--
Overwrite the file from `pos` on.
-/
def overwrite (m : Mapping α) (pos : Nat) (new : List α) : Mapping α :=
  { m with data := m.data.mapIdx fun i x => if pos ≤ m.offset + i then new.getD (m.offset + i - pos) x else x }

theorem contains_overwrite (m : Mapping α) (pos : Nat) (new : List α) (a : Nat)
    : (m.overwrite pos new).Contains a ↔ m.Contains a := by
  unfold Contains overwrite
  rw [List.length_mapIdx]

theorem get_overwrite {m : Mapping α} {a : Nat} (h : m.Contains a) (pos : Nat) (new : List α)
    : (m.overwrite pos new).get a
        =
      if pos ≤ m.place a ∧ m.place a < pos + new.length then new[m.place a - pos]? else m.get a := by
  have hin : a - m.base < m.data.length := by
    have := h.right
    have := h.left
    omega
  rw [get_of_contains ((contains_overwrite m pos new a).mpr h), get_of_contains h]
  unfold overwrite place
  dsimp only
  rw [List.getElem?_mapIdx, List.getElem?_eq_getElem hin, Option.map_some]
  split
  . next hpos =>
    split
    . next hlt =>
      rw [List.getD_eq_getElem?_getD, List.getElem?_eq_getElem (by omega), Option.getD_some]
    . next hge =>
      rw [List.getD_eq_getElem?_getD, List.getElem?_eq_none (by omega), Option.getD_none]
  . next hpos =>
    rw [if_neg (by omega)]

/--
Overwriting what is mapped is mapping what is overwritten.
-/
theorem overwrite_slice (base pos pos' len : Nat) (xs new : List α) (hin : pos + len ≤ xs.length)
    (hnew : pos' + new.length ≤ xs.length)
    : (Mapping.mk base pos (slice xs pos len)).overwrite pos' new
        =
      Mapping.mk base pos (slice (splice xs pos' new) pos len) := by
  unfold overwrite
  dsimp only
  congr 1
  apply List.ext_getElem?
  intro i
  rw [List.getElem?_mapIdx, getElem?_slice, getElem?_slice, getElem?_splice _ _ _ _ (by omega)]
  by_cases hi : i < len
  . rw [if_pos hi, if_pos hi, List.getElem?_eq_getElem (by omega), Option.map_some]
    split
    . next hpos =>
      split
      . next hmem =>
        rw [List.getD_eq_getElem?_getD, List.getElem?_eq_getElem (by omega), Option.getD_some]
      . next hmem =>
        rw [List.getD_eq_getElem?_getD, List.getElem?_eq_none (by omega), Option.getD_none]
    . next hpos =>
      rw [if_neg (by omega)]
  . rw [if_neg hi, if_neg hi, Option.map_none]

end Mapping

/--
A file of `size` items and what is mapped of it.
-/
structure MappedFile (α : Type) where
  size : Nat
  mappings : List (Mapping α)

namespace MappedFile

def image (f : MappedFile α) (a : Nat) : Option α := f.mappings.findSome? fun m => m.get a

def append (f : MappedFile α) (base : Nat) (data : List α) : MappedFile α where
  size := f.size + data.length
  mappings := f.mappings ++ [{ base, offset := f.size, data }]

def overwrite (f : MappedFile α) (pos : Nat) (new : List α) : MappedFile α :=
  { f with mappings := f.mappings.map fun m => m.overwrite pos new }

-- The mapping that decides about the address.
def first (f : MappedFile α) (a : Nat) : Option (Mapping α) :=
  f.mappings.find? fun m => decide (m.Contains a)

theorem image_eq_first (f : MappedFile α) (a : Nat) : f.image a = (f.first a).bind fun m => m.get a := by
  unfold image first
  induction f.mappings with
  | nil => rfl
  | cons m mappings ih =>
    rw [List.findSome?_cons, List.find?_cons]
    cases hget : m.get a with
    | none =>
      rw [decide_eq_false ((m.get_eq_none_iff a).mp hget)]
      exact ih
    | some x =>
      have hcontains : m.Contains a := by
        apply Decidable.by_contra
        intro hnot
        rw [(m.get_eq_none_iff a).mpr hnot] at hget
        contradiction
      rw [decide_eq_true hcontains]
      exact hget.symm

theorem first_append_of_none {f : MappedFile α} {a : Nat} (h : f.first a = none) {base : Nat}
    {data : List α} (hcontains : Mapping.Contains { base, offset := f.size, data } a)
    : (f.append base data).first a = some { base, offset := f.size, data } := by
  unfold first append at *
  dsimp only
  rw [List.find?_append, h, Option.none_or, List.find?_cons_of_pos (by simpa using hcontains)]

theorem first_overwrite (f : MappedFile α) (pos : Nat) (new : List α) (a : Nat)
    : (f.overwrite pos new).first a = (f.first a).map fun m => m.overwrite pos new := by
  unfold first overwrite
  dsimp only
  rw [List.find?_map]
  congr 2
  funext m
  exact decide_eq_decide.mpr (m.contains_overwrite pos new a)

/--
Overwriting changes the addresses that are mapped from the overwritten part.
-/
theorem image_overwrite {f : MappedFile α} {a : Nat} {m : Mapping α} (h : f.first a = some m) (pos : Nat)
    (new : List α)
    : (f.overwrite pos new).image a
        =
      if pos ≤ m.place a ∧ m.place a < pos + new.length then new[m.place a - pos]? else f.image a := by
  have hcontains : m.Contains a := by
    have := List.find?_some h
    exact of_decide_eq_true this
  rw [image_eq_first, first_overwrite, image_eq_first, h, Option.map_some, Option.bind_some,
    Option.bind_some]
  apply Mapping.get_overwrite hcontains

end MappedFile

/--
The items from `a` on, up to the first one that is `zero`.
-/
structure StringAt (image : Nat → Option α) (zero : α) (a : Nat) (s : List α) : Prop where
  items : ∀ i < s.length, image (a + i) = s[i]?
  nonzero : zero ∉ s
  ended : image (a + s.length) = some zero

theorem StringAt.length_le {image : Nat → Option α} {zero : α} {a : Nat} {s s' : List α}
    (h : StringAt image zero a s) (h' : StringAt image zero a s')
    : s.length ≤ s'.length := by
  apply Decidable.by_contra
  intro hlt
  have hend := h.items s'.length (by omega)
  rw [h'.ended, eq_comm, List.getElem?_eq_some_iff] at hend
  have ⟨hin, hzero⟩ := hend
  apply h.nonzero
  rw [← hzero]
  apply List.getElem_mem

/--
A string is there in every image that has its items.
-/
theorem StringAt.mono {image image' : Nat → Option α} {zero : α} {a : Nat} {s : List α}
    (h : StringAt image zero a s) (himage : ∀ i ≤ s.length, ∀ b, image (a + i) = some b → image' (a + i) = some b)
    : StringAt image' zero a s := by
  constructor
  . intro i hi
    rw [List.getElem?_eq_getElem hi]
    apply himage i (by omega)
    rw [h.items i hi, List.getElem?_eq_getElem hi]
  . exact h.nonzero
  . apply himage s.length (Nat.le_refl _)
    exact h.ended

theorem StringAt.unique {image : Nat → Option α} {zero : α} {a : Nat} {s s' : List α}
    (h : StringAt image zero a s) (h' : StringAt image zero a s')
    : s = s' := by
  have hlen := Nat.le_antisymm (h.length_le h') (h'.length_le h)
  apply List.ext_getElem?
  intro i
  cases Nat.lt_or_ge i s.length with
  | inl hlt => rw [← h.items i hlt, h'.items i (by omega)]
  | inr hge => rw [List.getElem?_eq_none hge, List.getElem?_eq_none (by omega)]

end Binary
end ElfCraft
