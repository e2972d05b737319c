import ElfCraft.Binary.Codec
import ElfCraft.Binary.Field

/-!
This module contains the endian safe scalars: an integer that is stored in a fixed byte order and
swapped on the way in and out if that order is not the one of the host.
-/

namespace ElfCraft
namespace Elf

open Binary

inductive Endian where
  | Little
  | Big
  deriving DecidableEq, Repr

namespace detail

def byteswap16 (v : BitVec 16) : BitVec 16 :=
  (v >>> 8) ||| (v <<< 8)

def byteswap32 (v : BitVec 32) : BitVec 32 :=
  ((v &&& 0x000000FF#32) <<< 24) |||
    ((v &&& 0x0000FF00#32) <<< 8) |||
    ((v &&& 0x00FF0000#32) >>> 8) |||
    ((v &&& 0xFF000000#32) >>> 24)

def byteswap64 (v : BitVec 64) : BitVec 64 :=
  ((byteswap32 ((v &&& 0xFFFFFFFF#64).setWidth 32)).setWidth 64 <<< 32) |||
    (byteswap32 ((v >>> 32).setWidth 32)).setWidth 64

-- A comparison of two constants: it holds on every host.
def host_is_little_endian : Bool :=
  (0x0001#16 == 1#16)

end detail

open detail

/--
The specializations of the template `byteswap`, one for each width that a field may have.
-/
class Swappable (w : Nat) where
  byteswap : BitVec w → BitVec w

instance : Swappable 16 where
  byteswap := byteswap16

instance : Swappable 32 where
  byteswap := byteswap32

instance : Swappable 64 where
  byteswap := byteswap64

structure Endianed (w : Nat) (order : Endian) where
  storage : BitVec w
  deriving DecidableEq, Repr

namespace Endianed

variable {w : Nat} {order : Endian}

def needs_swap (order : Endian) : Bool :=
  (order == .Little) != host_is_little_endian

variable [Swappable w]

def get (e : Endianed w order) : BitVec w :=
  if needs_swap order then Swappable.byteswap e.storage else e.storage

def set (hostValue : BitVec w) : Endianed w order :=
  ⟨if needs_swap order then Swappable.byteswap hostValue else hostValue⟩

end Endianed

/-
`memcpy` of the storage from and to memory: the host lays an integer out in its own order.
-/

def loadInteger (host : Endian) (w : Nat) (bs : List Byte) : BitVec w :=
  match host with
  | .Little => BitVec.ofNat w (ofDigits bs)
  | .Big => BitVec.ofNat w (ofDigits bs.reverse)

def storeInteger (host : Endian) (n : Nat) {w : Nat} (v : BitVec w) : List Byte :=
  match host with
  | .Little => toDigits n v.toNat
  | .Big => (toDigits n v.toNat).reverse

theorem length_storeInteger (host : Endian) (n : Nat) {w : Nat} (v : BitVec w)
    : (storeInteger host n v).length = n := by
  cases host with
  | Little => exact length_toDigits n v.toNat
  | Big => simp [storeInteger]

theorem loadInteger_storeInteger (host : Endian) (n : Nat) (v : BitVec (8 * n))
    : loadInteger host (8 * n) (storeInteger host n v) = v := by
  have hpow : 2 ^ (8 * n) = 256 ^ n := by
    rw [Nat.pow_mul]
  have hv : v.toNat < 256 ^ n := by
    rw [← hpow]
    exact v.isLt
  cases host with
  | Little =>
    simp only [loadInteger, storeInteger]
    rw [ofDigits_toDigits n v.toNat hv, BitVec.ofNat_toNat, BitVec.setWidth_eq]
  | Big =>
    simp only [loadInteger, storeInteger, List.reverse_reverse]
    rw [ofDigits_toDigits n v.toNat hv, BitVec.ofNat_toNat, BitVec.setWidth_eq]

theorem toDigits_ofNat_ofDigits (n : Nat) (bs : List Byte) (h : bs.length = n)
    : toDigits n (BitVec.ofNat (8 * n) (ofDigits bs)).toNat = bs := by
  have hlt := ofDigits_lt bs
  rw [h] at hlt
  rw [BitVec.toNat_ofNat, Nat.pow_mul, Nat.mod_eq_of_lt hlt, ← h, toDigits_ofDigits]

theorem storeInteger_loadInteger (host : Endian) (n : Nat) (bs : List Byte) (h : bs.length = n)
    : storeInteger host n (loadInteger host (8 * n) bs) = bs := by
  cases host with
  | Little => exact toDigits_ofNat_ofDigits n bs h
  | Big =>
    simp only [loadInteger, storeInteger]
    rw [toDigits_ofNat_ofDigits n bs.reverse (by rw [List.length_reverse, h]), List.reverse_reverse]

/--
The object representation of a field of `n` bytes.
-/
def Endianed.codec (host : Endian) (n : Nat) (order : Endian) : Codec (Endianed (8 * n) order) where
  size := n
  encode e := storeInteger host n e.storage
  decode bs := ⟨loadInteger host (8 * n) bs⟩
  length_encode e := length_storeInteger host n e.storage
  decode_encode e := by
    rw [loadInteger_storeInteger]
  encode_decode bs h := by
    rw [storeInteger_loadInteger host n bs h]

end Elf
end ElfCraft
