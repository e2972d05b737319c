import ElfCraft.Binary.Codec
import ElfCraft.Binary.Ranges

/-!
This module contains the layout of encoded records: where the words of a record are in its bytes and that
an assignment to one of them writes there and nowhere else.
-/

namespace ElfCraft
namespace Binary

variable {α β : Type}

/--
A word of `len` bytes in the records of a type, behind the first `offset` bytes.
-/
structure Slot (α : Type) where
  offset : Nat
  len : Nat
  get : α → BitVec (8 * len)
  set : α → BitVec (8 * len) → α

namespace Slot

def range (x : Slot α) : Nat × Nat := (x.offset, x.len)

def fst (β : Type) (x : Slot α) : Slot (α × β) where
  offset := x.offset
  len := x.len
  get p := x.get p.1
  set p v := (x.set p.1 v, p.2)

-- The records of `α` take `size` bytes.
def snd (α : Type) (size : Nat) (x : Slot β) : Slot (α × β) where
  offset := size + x.offset
  len := x.len
  get p := x.get p.2
  set p v := (p.1, x.set p.2 v)

def map (e : α ≃ β) (x : Slot α) : Slot β where
  offset := x.offset
  len := x.len
  get b := x.get (e.symm b)
  set b v := e (x.set (e.symm b) v)

/--
The slot is where `c` has the word, `word` says how words are stored.
-/
structure Lawful (x : Slot α) (c : Codec α) (word : (n : Nat) → Codec (BitVec (8 * n))) : Prop where
  fits : x.offset + x.len ≤ c.size
  get_decode : ∀ bs, bs.length = c.size →
    x.get (c.decode bs) = (word x.len).decode (slice bs x.offset x.len)
  encode_set : ∀ a v, c.encode (x.set a v) = splice (c.encode a) x.offset ((word x.len).encode v)

variable {word : (n : Nat) → Codec (BitVec (8 * n))}

theorem Lawful.fst {x : Slot α} {c : Codec α} (d : Codec β) (hword : ∀ n, (word n).size = n)
    (h : x.Lawful c word)
    : (x.fst β).Lawful (c.prod d) word := by
  have hfits := h.fits
  constructor
  . show x.offset + x.len ≤ c.size + d.size
    omega
  . intro bs hbs
    replace hbs : bs.length = c.size + d.size := hbs
    have htake : (bs.take c.size).length = c.size := by
      rw [List.length_take]
      omega
    show x.get (c.decode (bs.take c.size)) = _
    rw [h.get_decode _ htake]
    congr 1
    apply slice_congr
    intro i _ hi
    rw [List.getElem?_take_of_lt (by omega)]
  . have hset (a : α) (b : β) (v : BitVec (8 * x.len)) : c.encode (x.set a v) ++ d.encode b
        = splice (c.encode a ++ d.encode b) x.offset ((word x.len).encode v) := by
      rw [h.encode_set, splice_append_of_inside]
      rw [Codec.length_encode, Codec.length_encode, hword]
      exact hfits
    intro p v
    exact hset p.1 p.2 v

theorem Lawful.snd {x : Slot β} {d : Codec β} (c : Codec α) (h : x.Lawful d word)
    : (x.snd α c.size).Lawful (c.prod d) word := by
  have hfits := h.fits
  constructor
  . show c.size + x.offset + x.len ≤ c.size + d.size
    omega
  . intro bs hbs
    replace hbs : bs.length = c.size + d.size := hbs
    show x.get (d.decode (bs.drop c.size)) = (word x.len).decode (slice bs (c.size + x.offset) x.len)
    rw [h.get_decode _ (by rw [List.length_drop]; omega)]
    unfold slice
    rw [List.drop_drop]
  . intro p v
    exact Codec.encode_prod_snd c d p.1 (h.encode_set p.2 v)

theorem Lawful.map {x : Slot α} {c : Codec α} (e : α ≃ β) (h : x.Lawful c word)
    : (x.map e).Lawful (c.map e) word := by
  constructor
  . exact h.fits
  . intro bs hbs
    show x.get (e.symm (e (c.decode bs))) = _
    rw [e.symm_apply_apply]
    exact h.get_decode bs hbs
  . intro b v
    show c.encode (e.symm (e (x.set (e.symm b) v))) = _
    rw [e.symm_apply_apply]
    exact h.encode_set (e.symm b) v

end Slot

/--
The slots are the words of the record one after the other, and there is nothing else in its bytes.
-/
structure Layout (c : Codec α) (word : (n : Nat) → Codec (BitVec (8 * n))) (slots : List (Slot α)) : Prop where
  consecutive : Consecutive 0 (slots.map Slot.range) c.size
  lawful : ∀ x ∈ slots, x.Lawful c word

namespace Layout

variable {c : Codec α} {d : Codec β} {word : (n : Nat) → Codec (BitVec (8 * n))}
variable {slots : List (Slot α)} {slots' : List (Slot β)}

theorem prod (hword : ∀ n, (word n).size = n) (h : Layout c word slots) (h' : Layout d word slots')
    : Layout (c.prod d) word (slots.map (Slot.fst β) ++ slots'.map (Slot.snd α c.size)) := by
  constructor
  . rw [List.map_append, List.map_map, List.map_map]
    apply h.consecutive.append
    have hshift := h'.consecutive.shift c.size
    rw [List.map_map] at hshift
    exact hshift
  . intro x hx
    rcases List.mem_append.mp hx with hmem | hmem
    . obtain ⟨y, hy, rfl⟩ := List.mem_map.mp hmem
      exact (h.lawful y hy).fst d hword
    . obtain ⟨y, hy, rfl⟩ := List.mem_map.mp hmem
      exact (h'.lawful y hy).snd c

theorem map (e : α ≃ β) (h : Layout c word slots) : Layout (c.map e) word (slots.map (Slot.map e)) := by
  constructor
  . rw [List.map_map]
    exact h.consecutive
  . intro x hx
    obtain ⟨y, hy, rfl⟩ := List.mem_map.mp hx
    exact (h.lawful y hy).map e

end Layout

/-
The bytes of an array.
-/

def Slot.byte {n : Nat} (i : Fin n) : Slot (Fin n → Byte) where
  offset := i
  len := 1
  get f := f i
  set f v := Function.update f i v

theorem consecutive_finRange (n : Nat)
    : Consecutive 0 ((List.finRange n).map fun i => (i.val, 1)) n := by
  have hrange : ((List.finRange n).map fun i => (i.val, 1)) = (List.range n).map fun i => (i, 1) := by
    rw [← List.map_coe_finRange_eq_range, List.map_map]
    rfl
  rw [hrange]
  clear hrange
  induction n with
  | zero => rfl
  | succ n ih =>
    rw [List.range_succ, List.map_append]
    exact ih.append ⟨rfl, rfl⟩

theorem ofFn_update {n : Nat} (f : Fin n → α) (i : Fin n) (a : α)
    : List.ofFn (Function.update f i a) = splice (List.ofFn f) i [a] := by
  have hi := i.isLt
  apply List.ext_getElem?
  intro k
  rw [getElem?_splice _ _ _ _ (by rw [List.length_ofFn]; omega), List.length_singleton]
  rw [List.getElem?_ofFn, List.getElem?_ofFn]
  by_cases hki : k = i.val
  . rw [dif_pos (by omega), if_pos (by omega), show (⟨k, by omega⟩ : Fin n) = i from Fin.ext hki,
      Function.update_self, show k - i.val = 0 by omega]
    rfl
  . rw [if_neg (by omega)]
    split
    . next hk =>
      rw [Function.update_of_ne (fun heq => hki (congrArg Fin.val heq))]
    . rfl

theorem Slot.lawful_byte {word : (n : Nat) → Codec (BitVec (8 * n))} {n : Nat} (i : Fin n)
    (hdecode : ∀ b : Byte, (word 1).decode [b] = b) (hencode : ∀ b : Byte, (word 1).encode b = [b])
    : (Slot.byte i).Lawful (Codec.bytes n) word := by
  have hi := i.isLt
  constructor
  . exact hi
  . intro bs hbs
    replace hbs : bs.length = n := hbs
    have hslice : slice bs i 1 = [bs[i.val]] := by
      apply List.ext_getElem?
      intro k
      rw [getElem?_slice]
      split
      . next hk =>
        rw [show k = 0 by omega, List.getElem?_eq_getElem (by omega)]
        rfl
      . next hk =>
        rw [List.getElem?_eq_none (by simp; omega)]
    show bs.getD i 0 = (word 1).decode (slice bs i 1)
    rw [hslice, hdecode, List.getD_eq_getElem?_getD, List.getElem?_eq_getElem (by omega), Option.getD_some]
  . intro f (v : Byte)
    show List.ofFn (Function.update f i v) = splice (List.ofFn f) i ((word 1).encode v)
    rw [hencode, ofFn_update]

theorem Layout.bytes {word : (n : Nat) → Codec (BitVec (8 * n))} (n : Nat)
    (hdecode : ∀ b : Byte, (word 1).decode [b] = b) (hencode : ∀ b : Byte, (word 1).encode b = [b])
    : Layout (Codec.bytes n) word ((List.finRange n).map Slot.byte) := by
  constructor
  . rw [List.map_map]
    apply consecutive_finRange
  . intro x hx
    obtain ⟨i, -, rfl⟩ := List.mem_map.mp hx
    apply Slot.lawful_byte i hdecode hencode

end Binary
end ElfCraft
