import Mathlib.Algebra.Group.Nat.Defs
import Mathlib.Data.List.Basic
import Mathlib.Logic.Equiv.Defs
import ElfCraft.Binary.Splice

/-!
This module contains codecs of fixed size: a codec lays the values of a type out in a fixed number of
bytes such that both directions are exact, and codecs compose to codecs of records and of tables.
-/

namespace ElfCraft
namespace Binary

abbrev Byte := BitVec 8

/--
Every value has an encoding of `size` bytes and every run of `size` bytes encodes a value. The laws
are part of the structure, so that there are no codecs without them.
-/
structure Codec (α : Type) where
  size : Nat
  encode : α → List Byte
  decode : List Byte → α
  length_encode : ∀ a, (encode a).length = size
  decode_encode : ∀ a, decode (encode a) = a
  encode_decode : ∀ bs, bs.length = size → encode (decode bs) = bs

namespace Codec

variable {α β : Type}

attribute [simp] length_encode decode_encode

def map (c : Codec α) (e : α ≃ β) : Codec β where
  size := c.size
  encode b := c.encode (e.symm b)
  decode bs := e (c.decode bs)
  length_encode b := c.length_encode (e.symm b)
  decode_encode b := by
    rw [c.decode_encode, e.apply_symm_apply]
  encode_decode bs h := by
    rw [e.symm_apply_apply, c.encode_decode bs h]

def prod (c : Codec α) (d : Codec β) : Codec (α × β) where
  size := c.size + d.size
  encode p := c.encode p.1 ++ d.encode p.2
  decode bs := (c.decode (bs.take c.size), d.decode (bs.drop c.size))
  length_encode p := by
    rw [List.length_append, c.length_encode, d.length_encode]
  decode_encode p := by
    rw [List.take_left' (c.length_encode p.1), List.drop_left' (c.length_encode p.1)]
    rw [c.decode_encode, d.decode_encode]
  encode_decode bs h := by
    dsimp only
    rw [c.encode_decode, d.encode_decode, List.take_append_drop]
    . rw [List.length_drop]
      omega
    . rw [List.length_take]
      omega

/-
A change of one component of a record is a write to its bytes.
-/

theorem encode_prod_snd (c : Codec α) (d : Codec β) (a : α) {b b' : β} {pos : Nat} {ys : List Byte}
    (h : d.encode b' = splice (d.encode b) pos ys)
    : (c.prod d).encode (a, b') = splice ((c.prod d).encode (a, b)) (c.size + pos) ys := by
  unfold prod
  dsimp only
  rw [h, ← splice_append_length_add, c.length_encode]

def bytes (n : Nat) : Codec (Fin n → Byte) where
  size := n
  encode f := List.ofFn f
  decode bs := fun i => bs.getD i.val 0
  length_encode f := List.length_ofFn
  decode_encode f := by
    funext i
    simp
  encode_decode bs h := by
    apply List.ext_getElem
    . rw [List.length_ofFn, h]
    . intro i h1 h2
      simp [h2]

/--
`n` encodings in a row.
-/
def decodeAll (c : Codec α) (n : Nat) (bs : List Byte) : List α :=
  match n with
  | 0 => []
  | n + 1 => c.decode (bs.take c.size) :: c.decodeAll n (bs.drop c.size)

def encodeAll (c : Codec α) (as : List α) : List Byte :=
  as.flatMap c.encode

variable (c : Codec α)

@[simp]
theorem length_encodeAll (as : List α) : (c.encodeAll as).length = as.length * c.size := by
  unfold encodeAll
  induction as with
  | nil => simp
  | cons a as ih =>
    rw [List.flatMap_cons, List.length_append, ih, c.length_encode, List.length_cons, Nat.succ_mul]
    omega

@[simp]
theorem length_decodeAll (n : Nat) (bs : List Byte) : (c.decodeAll n bs).length = n := by
  induction n generalizing bs with
  | zero => rfl
  | succ n ih => simp [decodeAll, ih]

theorem encodeAll_append (as bs : List α)
    : c.encodeAll (as ++ bs) = c.encodeAll as ++ c.encodeAll bs := by
  unfold encodeAll
  rw [List.flatMap_append]

theorem encodeAll_decodeAll (n : Nat) (bs : List Byte) (h : bs.length = n * c.size)
    : c.encodeAll (c.decodeAll n bs) = bs := by
  induction n generalizing bs with
  | zero =>
    rw [Nat.zero_mul] at h
    rw [List.eq_nil_of_length_eq_zero h]
    rfl
  | succ n ih =>
    rw [Nat.succ_mul] at h
    simp only [encodeAll, decodeAll, List.flatMap_cons]
    rw [c.encode_decode]
    . rw [← encodeAll, ih]
      . rw [List.take_append_drop]
      . rw [List.length_drop]
        omega
    . rw [List.length_take]
      omega

theorem decodeAll_encodeAll (as : List α) (bs : List Byte)
    : c.decodeAll as.length (c.encodeAll as ++ bs) = as := by
  induction as with
  | nil => rfl
  | cons a as ih =>
    simp only [encodeAll, decodeAll, List.flatMap_cons, List.length_cons, List.append_assoc]
    rw [List.take_left' (c.length_encode a), List.drop_left' (c.length_encode a)]
    rw [c.decode_encode, ← encodeAll, ih]

theorem getElem?_decodeAll (n i : Nat) (bs : List Byte) (h : i < n)
    : (c.decodeAll n bs)[i]? = some (c.decode (slice bs (i * c.size) c.size)) := by
  induction n generalizing bs i with
  | zero => omega
  | succ n ih =>
    cases i with
    | zero => simp [decodeAll, slice]
    | succ i =>
      simp only [decodeAll, List.getElem?_cons_succ]
      rw [ih i (bs.drop c.size) (by omega)]
      unfold slice
      rw [List.drop_drop, Nat.succ_mul, Nat.add_comm]

theorem slice_encodeAll (as : List α) (i : Nat) (a : α) (h : as[i]? = some a)
    : slice (c.encodeAll as) (i * c.size) c.size = c.encode a := by
  have hi := (List.getElem?_eq_some_iff.mp h).choose
  have hle : (i + 1) * c.size ≤ as.length * c.size := Nat.mul_le_mul_right c.size hi
  rw [Nat.succ_mul] at hle
  have hdec := getElem?_decodeAll c as.length i (c.encodeAll as ++ []) hi
  rw [decodeAll_encodeAll, h, Option.some.injEq, List.append_nil] at hdec
  rw [hdec, encode_decode]
  apply length_slice
  rw [length_encodeAll]
  omega

theorem getElem?_decodeAll_slice (n i pos len : Nat) (bs : List Byte) (h : i < n)
    (hlen : n * c.size ≤ len)
    : (c.decodeAll n (slice bs pos len))[i]?
        =
      some (c.decode (slice bs (pos + i * c.size) c.size)) := by
  have hfit : (i + 1) * c.size ≤ n * c.size := Nat.mul_le_mul_right _ h
  rw [Nat.succ_mul] at hfit
  rw [getElem?_decodeAll _ _ _ _ h, slice_slice _ _ _ _ _ (by omega)]

theorem decodeAll_slice_of_le (n pos len : Nat) (bs : List Byte) (h : n * c.size ≤ len)
    : c.decodeAll n (slice bs pos len) = c.decodeAll n (slice bs pos (n * c.size)) := by
  apply List.ext_getElem?
  intro i
  rcases Nat.lt_or_ge i n with hlt | hge
  . rw [getElem?_decodeAll_slice _ _ _ _ _ _ hlt h]
    rw [getElem?_decodeAll_slice _ _ _ _ _ _ hlt (by omega)]
  . rw [List.getElem?_eq_none (by simp [hge]), List.getElem?_eq_none (by simp [hge])]

theorem decodeAll_succ_append (n : Nat) (bs : List Byte) (h : n * c.size ≤ bs.length)
    : c.decodeAll (n + 1) bs
        =
      c.decodeAll n bs ++ [c.decode (slice bs (n * c.size) c.size)] := by
  apply List.ext_getElem?
  intro i
  rcases Nat.lt_trichotomy i n with hlt | heq | hgt
  . rw [List.getElem?_append_left (by simp [hlt])]
    rw [getElem?_decodeAll _ _ _ _ hlt, getElem?_decodeAll _ _ _ _ (by omega)]
  . subst heq
    rw [List.getElem?_append_right (by simp), getElem?_decodeAll _ _ _ _ (by omega)]
    simp
  . rw [List.getElem?_eq_none (by simp; omega), List.getElem?_eq_none (by simp; omega)]

end Codec

/-
The base 256 digits of a number, the least significant one first.
-/

def ofDigits (bs : List Byte) : Nat :=
  match bs with
  | [] => 0
  | b :: bs => b.toNat + 256 * ofDigits bs

def toDigits (n v : Nat) : List Byte :=
  match n with
  | 0 => []
  | n + 1 => BitVec.ofNat 8 v :: toDigits n (v / 256)

@[simp]
theorem length_toDigits (n v : Nat) : (toDigits n v).length = n := by
  induction n generalizing v with
  | zero => rfl
  | succ n ih => simp [toDigits, ih]

theorem ofDigits_lt (bs : List Byte) : ofDigits bs < 256 ^ bs.length := by
  induction bs with
  | nil => simp [ofDigits]
  | cons b bs ih =>
    rw [ofDigits, List.length_cons, Nat.pow_succ]
    have := b.isLt
    omega

theorem ofDigits_toDigits (n v : Nat) (h : v < 256 ^ n) : ofDigits (toDigits n v) = v := by
  induction n generalizing v with
  | zero =>
    rw [Nat.pow_zero] at h
    simp only [toDigits, ofDigits]
    omega
  | succ n ih =>
    rw [Nat.pow_succ] at h
    rw [toDigits, ofDigits, ih (v / 256) (by omega), BitVec.toNat_ofNat]
    omega

theorem toDigits_ofDigits (bs : List Byte) : toDigits bs.length (ofDigits bs) = bs := by
  induction bs with
  | nil => rfl
  | cons b bs ih =>
    have hb := b.isLt
    rw [List.length_cons, ofDigits, toDigits]
    congr 1
    . apply BitVec.eq_of_toNat_eq
      rw [BitVec.toNat_ofNat]
      omega
    . rw [show (b.toNat + 256 * ofDigits bs) / 256 = ofDigits bs by omega, ih]

end Binary
end ElfCraft
