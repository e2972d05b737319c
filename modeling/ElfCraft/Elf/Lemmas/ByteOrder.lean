import ElfCraft.Elf.Lemmas.Endian
import ElfCraft.Elf.Lemmas.Serialize

/-!
This module contains the bytes of a field: on which hosts they are the digits of its value in the declared
order.
-/

namespace ElfCraft
namespace Elf

open Binary detail

/--
An integer of `n` bytes that is stored in the given order: what a field is meant to be.
-/
def Endian.word (order : Endian) (n : Nat) : Codec (BitVec (8 * n)) where
  size := n
  encode v := storeInteger order n v
  decode bs := loadInteger order (8 * n) bs
  length_encode v := length_storeInteger order n v
  decode_encode v := loadInteger_storeInteger order n v
  encode_decode bs h := storeInteger_loadInteger order n bs h

section Swap

variable (host : Endian) (n : Nat) (swap : BitVec (8 * n) → BitVec (8 * n))
variable (hswap : ∀ v, toDigits n (swap v).toNat = (toDigits n v.toNat).reverse)
include hswap

theorem storeInteger_swap (v : BitVec (8 * n))
    : storeInteger host n (swap v) = (storeInteger host n v).reverse := by
  cases host with
  | Little => exact hswap v
  | Big =>
    simp only [storeInteger]
    rw [hswap]

theorem swap_loadInteger (bs : List Byte) (h : bs.length = n)
    : swap (loadInteger host (8 * n) bs) = loadInteger host (8 * n) bs.reverse := by
  have hbytes := storeInteger_swap host n swap hswap (loadInteger host (8 * n) bs)
  rw [storeInteger_loadInteger host n bs h] at hbytes
  rw [← loadInteger_storeInteger host n (swap _), hbytes]

end Swap

-- How the bytes of a host compare to the ones of a little endian host.
def Endian.arranged (host : Endian) (bs : List Byte) : List Byte :=
  match host with
  | .Little => bs
  | .Big => bs.reverse

theorem arranged_eq_self_iff (host : Endian) (bs : List Byte)
    : host.arranged bs = bs ↔ host = .Little ∨ bs.reverse = bs := by
  cases host with
  | Little => simp [Endian.arranged]
  | Big => simp [Endian.arranged]

theorem length_arranged (host : Endian) (bs : List Byte) : (host.arranged bs).length = bs.length := by
  cases host with
  | Little => rfl
  | Big => exact List.length_reverse

theorem loadInteger_arranged (host order : Endian) (w : Nat) (bs : List Byte)
    : loadInteger order w (host.arranged bs)
        =
      loadInteger host w (order.arranged bs) := by
  cases host with
  | Little => cases order <;> simp [loadInteger, Endian.arranged]
  | Big => cases order <;> simp [loadInteger, Endian.arranged]

namespace Endianed

theorem needs_swap_iff (order : Endian) : needs_swap order = true ↔ order = .Big := by
  cases order with
  | Little => decide
  | Big => decide

section Field

variable (host order : Endian) (n : Nat) [Swappable (8 * n)]
variable (hswap : ∀ (v : BitVec (8 * n)), toDigits n (Swappable.byteswap v).toNat = (toDigits n v.toNat).reverse)
include hswap

theorem encode_set (v : BitVec (8 * n))
    : (Endianed.codec host n order).encode (.set v) = host.arranged ((order.word n).encode v) := by
  have hstore := storeInteger_swap host n Swappable.byteswap hswap v
  show storeInteger host n (if needs_swap order then Swappable.byteswap v else v) = _
  cases order with
  | Little =>
    rw [if_neg (by rw [needs_swap_iff]; decide)]
    cases host <;> rfl
  | Big =>
    rw [if_pos ((needs_swap_iff _).mpr rfl), hstore]
    cases host <;> simp [storeInteger, Endian.word, Endian.arranged]

theorem get_decode (bs : List Byte) (h : bs.length = n)
    : ((Endianed.codec host n order).decode bs).get = (order.word n).decode (host.arranged bs) := by
  have hload := swap_loadInteger host n Swappable.byteswap hswap bs h
  have harranged := loadInteger_arranged host order (8 * n) bs
  show (if needs_swap order then Swappable.byteswap (loadInteger host (8 * n) bs)
    else loadInteger host (8 * n) bs) = loadInteger order (8 * n) (host.arranged bs)
  rw [harranged]
  cases order with
  | Little =>
    rw [if_neg (by rw [needs_swap_iff]; decide)]
    rfl
  | Big =>
    rw [if_pos ((needs_swap_iff _).mpr rfl), hload]
    rfl

end Field

/--
The bytes of a field on `host` are the ones of its value in the declared order exactly where the host is
little endian or the bytes are the same in both orders, in memory as well as in a file.
-/
structure BytesExact (host order : Endian) (n : Nat) [Swappable (8 * n)] : Prop where
  set : ∀ v, (Endianed.codec host n order).encode (.set v) = (order.word n).encode v
    ↔ host = .Little ∨ ((order.word n).encode v).reverse = (order.word n).encode v
  get : ∀ bs, bs.length = n →
    (((Endianed.codec host n order).decode bs).get = (order.word n).decode bs
      ↔ host = .Little ∨ bs.reverse = bs)
  read : ∀ (bytes : Bytes) (offset : BitVec 64) (e : Endianed (8 * n) order),
    readStruct (Endianed.codec host n order) bytes offset = .ok e →
    (e.get = (order.word n).decode (slice bytes.toList offset.toNat n)
      ↔ host = .Little
        ∨ (slice bytes.toList offset.toNat n).reverse = slice bytes.toList offset.toNat n)
  write : ∀ (buf out : Bytes) (offset : BitVec 64) (v : BitVec (8 * n)), offset.toNat ≤ buf.size →
    ElfFile.writeStruct (Endianed.codec host n order) buf offset (.set v) = some out →
    (slice out.toList offset.toNat n = (order.word n).encode v
      ↔ host = .Little ∨ ((order.word n).encode v).reverse = (order.word n).encode v)

theorem bytesExact (host order : Endian) (n : Nat) (hn : n < 2 ^ 63) [Swappable (8 * n)]
    (hswap : ∀ (v : BitVec (8 * n)), toDigits n (Swappable.byteswap v).toNat = (toDigits n v.toNat).reverse)
    : BytesExact host order n := by
  have hset (v : BitVec (8 * n)) : (Endianed.codec host n order).encode (.set v) = (order.word n).encode v
      ↔ host = .Little ∨ ((order.word n).encode v).reverse = (order.word n).encode v := by
    rw [encode_set host order n hswap, arranged_eq_self_iff]
  have hget (bs : List Byte) (hbs : bs.length = n)
      : ((Endianed.codec host n order).decode bs).get = (order.word n).decode bs
        ↔ host = .Little ∨ bs.reverse = bs := by
    have hlen := length_arranged host bs
    rw [get_decode host order n hswap bs hbs, ← arranged_eq_self_iff]
    constructor
    . intro heq
      have hbytes := congrArg (order.word n).encode heq
      rw [Codec.encode_decode _ _ (hlen.trans hbs), Codec.encode_decode _ _ hbs] at hbytes
      exact hbytes
    . intro heq
      rw [heq]
  constructor
  . exact hset
  . exact hget
  . intro bytes offset e hread
    obtain ⟨hfits, rfl⟩ := (readStruct_eq_ok_iff _ bytes offset e).mp hread
    apply hget
    apply length_slice _ _ _ hfits
  . intro buf out offset v hoffset hwrite
    rw [ElfFile.writeStruct_eq_some_iff _ _ _ _ _ (by exact hn) hoffset] at hwrite
    have hlen : ((Endianed.codec host n order).encode (.set v)).length = n := by
      apply Codec.length_encode
    have hslice := slice_splice_self buf.toList ((Endianed.codec host n order).encode (.set v)) _ hoffset
    rw [← hwrite, hlen] at hslice
    rw [hslice]
    apply hset

-- The widths of the fields in bytes.
instance : Swappable (8 * 2) := inferInstanceAs (Swappable 16)
instance : Swappable (8 * 4) := inferInstanceAs (Swappable 32)
instance : Swappable (8 * 8) := inferInstanceAs (Swappable 64)

/--
`host_is_little_endian` holds on every host, so a big endian one reverses every field.
-/
theorem set_get_bytes_iff (host order : Endian)
    : BytesExact host order 2 ∧ BytesExact host order 4 ∧ BytesExact host order 8 := by
  refine ⟨?_, ?_, ?_⟩
  . apply bytesExact host order 2 (by omega)
    apply byteswap16_reverses
  . apply bytesExact host order 4 (by omega)
    apply byteswap32_reverses
  . apply bytesExact host order 8 (by omega)
    apply byteswap64_reverses

-- `EM_PPC64` in a big endian file, written by a big endian host.
theorem set_get_bytes_big
    : ¬ ∀ (host order : Endian) (v : BitVec (8 * 2)),
        (Endianed.codec host 2 order).encode (.set v) = (order.word 2).encode v := by
  intro h
  have hbytes := h .Big .Big 21
  revert hbytes
  decide

end Endianed

end Elf
end ElfCraft
