import ElfCraft.Ppc.Isa

/-!
This module contains the doublewords in the memory of the processor.
-/

namespace ElfCraft
namespace Ppc

theorem load64_eq (mem : BitVec 64 → BitVec 8) (addr : BitVec 64)
    : load64 mem addr
        =
      mem (addr + BitVec.ofNat 64 0) ++ mem (addr + BitVec.ofNat 64 1) ++ mem (addr + BitVec.ofNat 64 2)
        ++ mem (addr + BitVec.ofNat 64 3) ++ mem (addr + BitVec.ofNat 64 4)
        ++ mem (addr + BitVec.ofNat 64 5) ++ mem (addr + BitVec.ofNat 64 6)
        ++ mem (addr + BitVec.ofNat 64 7) := by
  rw [BitVec.add_zero]
  rfl

theorem load64_congr (mem mem' : BitVec 64 → BitVec 8) (addr : BitVec 64)
    (h : ∀ k < 8, mem (addr + BitVec.ofNat 64 k) = mem' (addr + BitVec.ofNat 64 k))
    : load64 mem addr = load64 mem' addr := by
  rw [load64_eq, load64_eq]
  rw [h 0 (by omega), h 1 (by omega), h 2 (by omega), h 3 (by omega), h 4 (by omega), h 5 (by omega),
    h 6 (by omega), h 7 (by omega)]

theorem store64_of_inside (mem : BitVec 64 → BitVec 8) (addr v : BitVec 64) (k : Nat) (h : k < 8)
    : store64 mem addr v (addr + BitVec.ofNat 64 k) = v.extractLsb' (8 * (7 - k)) 8 := by
  have hk : (addr + BitVec.ofNat 64 k - addr).toNat = k := by
    rw [BitVec.add_comm, BitVec.add_sub_cancel, BitVec.toNat_ofNat]
    omega
  unfold store64
  rw [hk, if_pos h]

theorem store64_of_outside (mem : BitVec 64 → BitVec 8) (addr v a : BitVec 64)
    (h : 8 ≤ (a - addr).toNat)
    : store64 mem addr v a = mem a := by
  unfold store64
  rw [if_neg (by omega)]

theorem load64_store64_same (mem : BitVec 64 → BitVec 8) (addr v : BitVec 64)
    : load64 (store64 mem addr v) addr = v := by
  rw [load64_eq]
  rw [store64_of_inside mem addr v 0 (by omega), store64_of_inside mem addr v 1 (by omega), store64_of_inside mem addr v 2 (by omega),
    store64_of_inside mem addr v 3 (by omega), store64_of_inside mem addr v 4 (by omega),
    store64_of_inside mem addr v 5 (by omega), store64_of_inside mem addr v 6 (by omega),
    store64_of_inside mem addr v 7 (by omega)]
  rw [BitVec.extractLsb'_append_extractLsb'_eq_extractLsb' (by rfl)]
  rw [BitVec.extractLsb'_append_extractLsb'_eq_extractLsb' (by rfl)]
  rw [BitVec.extractLsb'_append_extractLsb'_eq_extractLsb' (by rfl)]
  rw [BitVec.extractLsb'_append_extractLsb'_eq_extractLsb' (by rfl)]
  rw [BitVec.extractLsb'_append_extractLsb'_eq_extractLsb' (by rfl)]
  rw [BitVec.extractLsb'_append_extractLsb'_eq_extractLsb' (by rfl)]
  rw [BitVec.extractLsb'_append_extractLsb'_eq_extractLsb' (by rfl)]
  apply BitVec.extractLsb'_eq_self

theorem load64_store64_of_disjoint (mem : BitVec 64 → BitVec 8) (addr addr' v : BitVec 64)
    (h : ∀ k < 8, 8 ≤ (addr' + BitVec.ofNat 64 k - addr).toNat)
    : load64 (store64 mem addr v) addr' = load64 mem addr' := by
  apply load64_congr
  intro k hk
  rw [store64_of_outside _ _ _ _ (h k hk)]

end Ppc
end ElfCraft
