import Mathlib

/-!
# Wcn.Lib.BitSets

Bit vectors read as finite sets of positions, for an arbitrary width.

* `ones x` — the positions of the bits set in `x`.
* `ones_or_bit`, `ones_and_not_bit`, `and_bit_eq_zero_iff`, `and_not_eq_zero_iff` — setting,
  clearing and testing a bit, and inclusion, as set operations.
* `ffs`, `fls` — the first and the last set bit, the width without one.
* `bits`, `bitsBelow` — the positions in ascending order, all of them or those below a bound.
-/

namespace Wcn
namespace Lib

variable {n : Nat}

def ones (x : BitVec n) : Finset (Fin n) := Finset.univ.filter fun i => x.getLsbD i

@[simp] theorem mem_ones {x : BitVec n} {i : Fin n} : i ∈ ones x ↔ x.getLsbD i = true := by
  simp [ones]

theorem ones_injective : Function.Injective (ones (n := n)) := by
  intro x y h
  refine BitVec.eq_of_getLsbD_eq fun i hi => Bool.eq_iff_iff.mpr ?_
  have hmem := Finset.ext_iff.mp h ⟨i, hi⟩
  rwa [mem_ones, mem_ones] at hmem

@[simp] theorem ones_zero : ones (0 : BitVec n) = ∅ := by
  ext i
  simp

@[simp] theorem ones_eq_empty_iff {x : BitVec n} : ones x = ∅ ↔ x = 0 :=
  ⟨fun h => ones_injective (h.trans ones_zero.symm), fun h => by rw [h, ones_zero]⟩

theorem ne_zero_of_mem_ones {x : BitVec n} {i : Fin n} (h : i ∈ ones x) : x ≠ 0 := by
  rintro rfl
  rw [ones_zero] at h
  exact absurd h (Finset.notMem_empty i)

theorem getLsbD_bit (i j : Fin n) : (1#n <<< i.val).getLsbD j.val = decide (i = j) := by
  have hi := i.isLt
  have hj := j.isLt
  rw [BitVec.getLsbD_shiftLeft, BitVec.getLsbD_one]
  rcases Nat.lt_trichotomy i.val j.val with h | h | h
  · have hne : i ≠ j := fun heq => by rw [heq] at h; omega
    simp only [hne, decide_false]
    simp
    omega
  · have heq : i = j := Fin.ext h
    subst heq
    simp
    omega
  · have hne : i ≠ j := fun heq => by rw [heq] at h; omega
    simp [hne, h]

theorem ones_or_bit (x : BitVec n) (i : Fin n) : ones (x ||| 1#n <<< i.val) = insert i (ones x) := by
  ext j
  simp only [mem_ones, BitVec.getLsbD_or, getLsbD_bit, Bool.or_eq_true, decide_eq_true_eq,
    Finset.mem_insert]
  rw [or_comm, eq_comm]

theorem ones_and_not_bit (x : BitVec n) (i : Fin n) :
    ones (x &&& ~~~(1#n <<< i.val)) = (ones x).erase i := by
  ext j
  simp only [mem_ones, BitVec.getLsbD_and, BitVec.getLsbD_not, getLsbD_bit, Finset.mem_erase,
    Fin.is_lt, decide_true, Bool.true_and, Bool.and_eq_true, Bool.not_eq_true', decide_eq_false_iff_not]
  rw [and_comm, eq_comm]

theorem and_bit_eq_zero_iff {x : BitVec n} {i : Fin n} : x &&& (1#n <<< i.val) = 0 ↔ i ∉ ones x := by
  rw [← ones_eq_empty_iff, Finset.eq_empty_iff_forall_notMem]
  simp only [mem_ones, BitVec.getLsbD_and, getLsbD_bit, Bool.and_eq_true, decide_eq_true_eq]
  constructor
  · intro h hi
    exact h i ⟨hi, rfl⟩
  · rintro h j ⟨hj, rfl⟩
    exact h hj

theorem and_not_eq_zero_iff {x y : BitVec n} : x &&& ~~~y = 0 ↔ ones x ⊆ ones y := by
  rw [← ones_eq_empty_iff, Finset.eq_empty_iff_forall_notMem]
  constructor
  · intro h i hi
    by_contra hy
    refine h i ?_
    rw [mem_ones] at hi hy ⊢
    rw [BitVec.getLsbD_and, BitVec.getLsbD_not, hi, Bool.eq_false_iff.mpr hy]
    simp
  · intro h i hi
    simp only [mem_ones, BitVec.getLsbD_and, BitVec.getLsbD_not, Bool.and_eq_true] at hi
    rw [mem_ones.mp (h (mem_ones.mpr hi.1))] at hi
    simp at hi

/-- The lowest `k` bits set. -/
theorem ones_low {k : Nat} (hk : k < n) : ones ((1#n <<< k) - 1#n) = Finset.univ.filter (·.val < k) := by
  ext i
  have hlow : ((1#n <<< k) - 1#n) = BitVec.ofNat n (2 ^ k - 1) := by
    refine BitVec.eq_of_toNat_eq ?_
    have hpow : 2 ^ k < 2 ^ n := Nat.pow_lt_pow_right (by omega) hk
    have hone : 0 < 2 ^ k := Nat.two_pow_pos k
    have h1 : 1 % 2 ^ n = 1 := Nat.mod_eq_of_lt (by omega)
    simp only [BitVec.toNat_sub, BitVec.toNat_shiftLeft, BitVec.toNat_ofNat, h1, Nat.shiftLeft_eq,
      one_mul, Nat.mod_eq_of_lt hpow]
    rw [Nat.mod_eq_of_lt (show 2 ^ k - 1 < 2 ^ n by omega),
      show 2 ^ n - 1 + 2 ^ k = 2 ^ k - 1 + 2 ^ n by omega, Nat.add_mod_right,
      Nat.mod_eq_of_lt (by omega)]
  rw [mem_ones, hlow, BitVec.getLsbD_ofNat]
  simp

/-! ## The first and the last set bit -/

def ffs (x : BitVec n) : Nat :=
  ((List.finRange n).find? fun i : Fin n => x.getLsbD i).elim n Fin.val

def fls (x : BitVec n) : Nat :=
  ((List.finRange n).reverse.find? fun i : Fin n => x.getLsbD i).elim n Fin.val

theorem find?_least {α : Type*} {r : α → α → Prop} {p : α → Bool} {l : List α} {a : α}
    (hl : l.Pairwise r) (h : l.find? p = some a) : ∀ b ∈ l, p b = true → a = b ∨ r a b := by
  intro b hb hp
  obtain ⟨_, before, after, rfl, hbefore⟩ := List.find?_eq_some_iff_append.mp h
  rcases List.mem_append.mp hb with hb | hb
  · have hnot := hbefore b hb
    rw [hp] at hnot
    cases hnot
  · rcases List.mem_cons.mp hb with hb | hb
    · exact .inl hb.symm
    · exact .inr ((List.pairwise_cons.mp (List.pairwise_append.mp hl).2.1).1 b hb)

theorem exists_find?_ones {x : BitVec n} (h : x ≠ 0) {l : List (Fin n)} (hl : ∀ i, i ∈ l) :
    ∃ i ∈ ones x, l.find? (fun i : Fin n => x.getLsbD i) = some i := by
  obtain ⟨j, hj⟩ := Finset.nonempty_iff_ne_empty.mpr (ones_eq_empty_iff.not.mpr h)
  cases hfind : l.find? (fun i : Fin n => x.getLsbD i) with
  | none => exact absurd (mem_ones.mp hj) (List.find?_eq_none.mp hfind j (hl j))
  | some i =>
    have hi := List.find?_some hfind
    exact ⟨i, mem_ones.mpr hi, rfl⟩

theorem ffs_of_ne_zero {x : BitVec n} (h : x ≠ 0) :
    ∃ i ∈ ones x, ffs x = i.val ∧ ∀ j ∈ ones x, i ≤ j := by
  obtain ⟨i, hi, hfind⟩ := exists_find?_ones h List.mem_finRange
  refine ⟨i, hi, by rw [ffs, hfind]; rfl, fun j hj => ?_⟩
  rcases find?_least (List.pairwise_lt_finRange n) hfind j (List.mem_finRange j) (mem_ones.mp hj) with
    heq | hlt
  · exact Fin.le_of_eq heq
  · exact Fin.le_of_lt hlt

theorem fls_of_ne_zero {x : BitVec n} (h : x ≠ 0) :
    ∃ i ∈ ones x, fls x = i.val ∧ ∀ j ∈ ones x, j ≤ i := by
  have hall : ∀ i, i ∈ (List.finRange n).reverse := fun i =>
    List.mem_reverse.mpr (List.mem_finRange i)
  obtain ⟨i, hi, hfind⟩ := exists_find?_ones h hall
  refine ⟨i, hi, by rw [fls, hfind]; rfl, fun j hj => ?_⟩
  rcases find?_least (List.pairwise_reverse.mpr (List.pairwise_lt_finRange n)) hfind j (hall j)
      (mem_ones.mp hj) with heq | hlt
  · exact Fin.le_of_eq heq.symm
  · exact Fin.le_of_lt hlt

/-! ## The set bits in order -/

def bitsBelow (x : BitVec n) (k : Nat) : List (Fin n) :=
  ((List.finRange n).take k).filter fun i => x.getLsbD i

def bits (x : BitVec n) : List (Fin n) := (List.finRange n).filter fun i => x.getLsbD i

@[simp] theorem mem_bits {x : BitVec n} {i : Fin n} : i ∈ bits x ↔ i ∈ ones x := by
  rw [bits, List.mem_filter, mem_ones]
  exact and_iff_right (List.mem_finRange i)

theorem pairwise_bits (x : BitVec n) : (bits x).Pairwise (· < ·) :=
  (List.pairwise_lt_finRange n).filter _

theorem toFinset_bits (x : BitVec n) : (bits x).toFinset = ones x := by
  ext i
  rw [List.mem_toFinset, mem_bits]

theorem length_bits (x : BitVec n) : (bits x).length = (ones x).card := by
  have hnodup : (bits x).Nodup := (List.nodup_finRange n).filter _
  rw [← toFinset_bits, List.toFinset_card_of_nodup hnodup]

@[simp] theorem bitsBelow_zero (x : BitVec n) : bitsBelow x 0 = [] := rfl

theorem bitsBelow_succ (x : BitVec n) (i : Fin n) :
    bitsBelow x (i.val + 1) = bitsBelow x i.val ++ if x.getLsbD i then [i] else [] := by
  have hnext : (List.finRange n)[i.val]? = some i := by simp
  rw [bitsBelow, List.take_add_one, hnext, Option.toList_some, List.filter_append, ← bitsBelow,
    List.filter_singleton, Bool.cond_eq_ite]

theorem exists_bits_eq_append (x : BitVec n) (k : Nat) :
    ∃ rest : List (Fin n), bits x = bitsBelow x k ++ rest ∧ ∀ i, i ∈ rest ↔ i ∈ ones x ∧ k ≤ i.val := by
  refine ⟨((List.finRange n).drop k).filter fun i : Fin n => x.getLsbD i, ?_, fun i => ?_⟩
  · rw [bits, bitsBelow, ← List.filter_append, List.take_append_drop]
  · have hdrop : i ∈ (List.finRange n).drop k ↔ k ≤ i.val := by
      rw [List.mem_drop_iff_getElem]
      constructor
      · rintro ⟨j, hj, rfl⟩
        simp
      · intro hk
        refine ⟨i.val - k, ?_, ?_⟩
        · rw [List.length_finRange]
          omega
        · simp [Nat.add_sub_cancel' hk]
    rw [List.mem_filter, hdrop, mem_ones, and_comm]

theorem bitsBelow_eq_bits {x : BitVec n} {k : Nat} (h : ∀ i ∈ ones x, i.val < k) :
    bitsBelow x k = bits x := by
  obtain ⟨rest, hbits, hrest⟩ := exists_bits_eq_append x k
  have hnil : rest = [] := List.eq_nil_iff_forall_not_mem.mpr fun i hi =>
    Nat.not_le.mpr (h i ((hrest i).mp hi).1) ((hrest i).mp hi).2
  rw [hbits, hnil, List.append_nil]

theorem length_bitsBelow_le (x : BitVec n) (k : Nat) : (bitsBelow x k).length ≤ (ones x).card := by
  obtain ⟨rest, hbits, _⟩ := exists_bits_eq_append x k
  rw [← length_bits, hbits, List.length_append]
  exact Nat.le_add_right _ _

theorem length_bitsBelow_lt {x : BitVec n} {k : Nat} {i : Fin n} (hi : i ∈ ones x) (hk : k ≤ i.val) :
    (bitsBelow x k).length < (ones x).card := by
  obtain ⟨rest, hbits, hrest⟩ := exists_bits_eq_append x k
  rw [← length_bits, hbits, List.length_append]
  exact Nat.lt_add_of_pos_right (List.length_pos_of_mem ((hrest i).mpr ⟨hi, hk⟩))

end Lib
end Wcn
