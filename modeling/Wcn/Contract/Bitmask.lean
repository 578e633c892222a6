import Wcn.Lib.BitSets

/-!
# Wcn.Contract.Bitmask

The `Bitmask` library of the contract: operator slots as bits of a 256-bit word.

* The operations as the library has them. `LibBit` returns 256 for a word without set bits, which
  the casts to `uint8` turn into slot 0.
* Each of them as an operation on the set `ones mask` of slots.
-/

namespace Wcn
namespace Contract
namespace Bitmask

open Lib

/-- A slot index, `uint8`. -/
abbrev Idx := Fin 256

instance neZero_idx : NeZero 256 := ⟨by decide⟩

def fill (n : Nat) : BitVec 256 := if n = 256 then BitVec.allOnes 256 else (1#256 <<< n) - 1#256

def set (self : BitVec 256) (idx : Idx) : BitVec 256 := self ||| 1#256 <<< idx.val

def unset (self : BitVec 256) (idx : Idx) : BitVec 256 := self &&& ~~~(1#256 <<< idx.val)

def isSet (self : BitVec 256) (idx : Idx) : Bool := self &&& (1#256 <<< idx.val) != 0

def isUnset (self : BitVec 256) (idx : Idx) : Bool := self &&& (1#256 <<< idx.val) == 0

/-- `LibBit.popCount`. -/
def countSet (self : BitVec 256) : Nat := (ones self).card

def findFirstUnset (self : BitVec 256) : Idx := Fin.ofNat 256 (ffs (~~~self))

def findLastSet (self : BitVec 256) : Idx := Fin.ofNat 256 (fls self)

def isSubsetOf (self other : BitVec 256) : Bool := self &&& ~~~other == 0

def fromArray (array : List Idx) : BitVec 256 := array.foldl set 0

theorem isSet_iff {mask : BitVec 256} {i : Idx} : isSet mask i = true ↔ i ∈ ones mask := by
  rw [isSet, bne_iff_ne, ne_eq, and_bit_eq_zero_iff, not_not]

theorem isUnset_iff {mask : BitVec 256} {i : Idx} : isUnset mask i = true ↔ i ∉ ones mask := by
  rw [isUnset, beq_iff_eq, and_bit_eq_zero_iff]

theorem isSubsetOf_iff {mask other : BitVec 256} :
    isSubsetOf mask other = true ↔ ones mask ⊆ ones other := by
  rw [isSubsetOf, beq_iff_eq, and_not_eq_zero_iff]

@[simp] theorem ones_set (mask : BitVec 256) (i : Idx) : ones (set mask i) = insert i (ones mask) :=
  ones_or_bit mask i

@[simp] theorem ones_unset (mask : BitVec 256) (i : Idx) : ones (unset mask i) = (ones mask).erase i :=
  ones_and_not_bit mask i

theorem ones_foldl_set (indices : List Idx) (mask : BitVec 256) :
    ones (indices.foldl set mask) = ones mask ∪ indices.toFinset := by
  induction indices generalizing mask with
  | nil => rw [List.foldl_nil, List.toFinset_nil, Finset.union_empty]
  | cons idx indices ih =>
    rw [List.foldl_cons, ih, ones_set, List.toFinset_cons, Finset.insert_union,
      Finset.union_insert]

@[simp] theorem ones_fromArray (array : List Idx) : ones (fromArray array) = array.toFinset := by
  rw [fromArray, ones_foldl_set, ones_zero, Finset.empty_union]

theorem fromArray_bits (mask : BitVec 256) : fromArray (bits mask) = mask := by
  refine ones_injective ?_
  rw [ones_fromArray, toFinset_bits]

theorem ones_fill {n : Nat} (h : n ≤ 256) : ones (fill n) = Finset.univ.filter (·.val < n) := by
  rw [fill]
  split
  · next heq =>
    subst heq
    ext i
    rw [mem_ones, BitVec.getLsbD_allOnes]
    simp
  · exact ones_low (by omega)

theorem findFirstUnset_notMem {mask : BitVec 256} (h : mask ≠ BitVec.allOnes 256) :
    findFirstUnset mask ∉ ones mask ∧ ∀ i < findFirstUnset mask, i ∈ ones mask := by
  have hne : ~~~mask ≠ 0 := by
    intro h0
    refine h (BitVec.eq_of_getLsbD_eq fun i hi => ?_)
    have hbit := congrArg (BitVec.getLsbD · i) h0
    rw [BitVec.getLsbD_allOnes]
    simpa [hi] using hbit
  obtain ⟨i, hi, heq, hmin⟩ := ffs_of_ne_zero hne
  have hidx : findFirstUnset mask = i := by rw [findFirstUnset, heq, Fin.ofNat_val_eq_self]
  have hmem : ∀ j : Idx, j ∈ ones (~~~mask) ↔ j ∉ ones mask := fun j => by
    rw [mem_ones, mem_ones, BitVec.getLsbD_not]
    simp
  rw [hidx]
  refine ⟨(hmem i).mp hi, fun j hj => ?_⟩
  by_contra hnot
  exact absurd (hmin j ((hmem j).mpr hnot)) (Fin.not_le.mpr hj)

theorem findLastSet_mem {mask : BitVec 256} (h : mask ≠ 0) :
    findLastSet mask ∈ ones mask ∧ ∀ i ∈ ones mask, i ≤ findLastSet mask := by
  obtain ⟨i, hi, heq, hmax⟩ := fls_of_ne_zero h
  have hidx : findLastSet mask = i := by rw [findLastSet, heq, Fin.ofNat_val_eq_self]
  rw [hidx]
  exact ⟨hi, hmax⟩

/-- There is no gap of two free slots before the last one. -/
theorem findFirstUnset_le {mask : BitVec 256} (hfull : mask ≠ BitVec.allOnes 256) (h0 : mask ≠ 0) :
    (findFirstUnset mask).val ≤ (findLastSet mask).val + 1 := by
  by_contra hlt
  have hlen := (findFirstUnset mask).isLt
  have hlast : (findLastSet mask).val + 1 < 256 := by omega
  have hnext : (⟨(findLastSet mask).val + 1, hlast⟩ : Idx) < findFirstUnset mask :=
    Fin.lt_def.mpr (Nat.lt_of_not_le hlt)
  have hle : (findLastSet mask).val + 1 ≤ (findLastSet mask).val :=
    Fin.le_def.mp ((findLastSet_mem h0).2 _ ((findFirstUnset_notMem hfull).2 _ hnext))
  omega

end Bitmask
end Contract
end Wcn
