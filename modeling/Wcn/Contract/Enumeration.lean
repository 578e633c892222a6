import Wcn.Lib.Loops
import Wcn.Contract.Cluster

/-!
# Wcn.Contract.Enumeration

The loops of the contract that go through a bitmask: `intoArray`, `getAllOperators` and `getView`.

* A loop gets a number of turns, and gives `none` if it takes more. Writing past the end of an
  array reverts, as Solidity's bounds checks do.
* The counter of `getAllOperators` is a `uint8` that wraps around, so only the number of addresses
  found can end its loop.
* Each loop visits the slots of `bits`, and 257 tests of its condition are enough.
-/

namespace Wcn
namespace Contract

open Lib Bitmask

variable {α : Type}

/-- `array[idx] = value`. -/
def write (array : List α) (idx : Nat) (value : α) : Except Revert (List α) :=
  if idx < array.length then .ok (array.set idx value) else .error .panic

/-- The local variables of a loop that collects what it finds in an array. `I` is the type of its
counter. -/
structure Collecting (I α : Type) where
  i : I
  count : Nat
  array : List α

namespace Bitmask

/-- The counter is a `uint16`. -/
def intoArrayBody (self : BitVec 256) (s : Collecting Nat Idx) :
    Except Revert (Collecting Nat Idx) := do
  let s ←
    if isSet self (Fin.ofNat 256 s.i) then do
      let count ← increment 256 s.count
      let array ← write s.array s.count (Fin.ofNat 256 s.i)
      .ok { s with count, array }
    else
      .ok s
  let i ← increment 16 s.i
  .ok { s with i }

def intoArray (self : BitVec 256) (turns : Nat) : Option (Except Revert (List Idx)) :=
  (loop (fun s => s.i ≤ (findLastSet self).val) (intoArrayBody self) turns
    ⟨0, 0, List.replicate (countSet self) 0⟩).map (·.map (·.array))

end Bitmask

def maxOperators : Nat := 256

/-- Both increments are `unchecked`. -/
def getAllOperatorsBody (s : State) (l : Collecting Idx Address) :
    Except Revert (Collecting Idx Address) := do
  let l ←
    if isSet s.operatorBitmask l.i then do
      let array ← write l.array l.count (s.operatorSlots l.i).addr
      .ok { l with count := (l.count + 1) % 2 ^ 256, array }
    else
      .ok l
  .ok { l with i := l.i + 1 }

/-- The addresses as the loop of `getAllOperators` finds them. -/
def operatorAddresses (s : State) (turns : Nat) : Option (Except Revert (List Address)) :=
  let operatorCount := countSet s.operatorBitmask
  (loop (fun l => l.i.val < maxOperators && l.count < operatorCount) (getAllOperatorsBody s) turns
    ⟨0, 0, List.replicate operatorCount 0⟩).map (·.map (·.array))

/-- `LibSort.sort` is an ascending sort. -/
def getAllOperators (s : State) (turns : Nat) : Option (Except Revert (List Address)) :=
  (operatorAddresses s turns).map (·.map (·.mergeSort (· ≤ ·)))

/-- The local variables of the loop of `getView`. The counter is a `uint16`. -/
structure Viewing where
  i : Nat
  operators : List NodeOperator

def getViewBody (s : State) (l : Viewing) : Except Revert Viewing := do
  let l ←
    if isSet s.operatorBitmask (Fin.ofNat 256 l.i) then do
      let operators ← write l.operators l.i (s.operatorSlots (Fin.ofNat 256 l.i))
      .ok { l with operators }
    else
      .ok l
  let i ← increment 16 l.i
  .ok { l with i }

/-- The `operatorSlots` of `getView`, by its loop. -/
def viewSlots (s : State) (turns : Nat) : Option (Except Revert (List NodeOperator)) :=
  let highestOccupiedSlot := (findLastSet s.operatorBitmask).val
  (loop (fun l => l.i ≤ highestOccupiedSlot) (getViewBody s) turns
    ⟨0, List.replicate (highestOccupiedSlot + 1) {}⟩).map (·.map (·.operators))

/-! ## Collecting -/

section Collecting

variable (mask : BitVec 256) (entry : Idx → α) (blank : α)

/-- The array of a collecting loop before its turn for slot `k`. -/
def collected (k : Nat) : List α :=
  filled (countSet mask) blank ((bitsBelow mask k).map entry)

theorem collected_zero : collected mask entry blank 0 = List.replicate (countSet mask) blank := by
  rw [collected, bitsBelow_zero, List.map_nil, filled_nil]

theorem bitsBelow_last : bitsBelow mask ((findLastSet mask).val + 1) = bits mask :=
  bitsBelow_eq_bits fun i hi =>
    Nat.lt_succ_of_le ((findLastSet_mem (ne_zero_of_mem_ones hi)).2 i hi)

theorem collected_last :
    collected mask entry blank ((findLastSet mask).val + 1) = (bits mask).map entry := by
  rw [collected, bitsBelow_last, filled_full]
  rw [List.length_map, length_bits, countSet]

variable {mask} {i : Idx}

theorem bitsBelow_next_of_isSet (h : isSet mask i = true) :
    bitsBelow mask (i.val + 1) = bitsBelow mask i.val ++ [i] := by
  rw [bitsBelow_succ, if_pos (mem_ones.mp (isSet_iff.mp h))]

theorem bitsBelow_next_of_not_isSet (h : ¬isSet mask i = true) :
    bitsBelow mask (i.val + 1) = bitsBelow mask i.val := by
  rw [bitsBelow_succ, if_neg (mem_ones.not.mp (isSet_iff.not.mp h)), List.append_nil]

/-- The array has room for every slot that is set. -/
theorem write_collected (h : isSet mask i = true) :
    write (collected mask entry blank i.val) (bitsBelow mask i.val).length (entry i) =
      .ok (collected mask entry blank (i.val + 1)) := by
  have hroom : ((bitsBelow mask i.val).map entry).length < countSet mask := by
    rw [List.length_map]
    exact length_bitsBelow_lt (isSet_iff.mp h) (Nat.le_refl _)
  have hset := set_filled hroom blank (entry i)
  rw [List.length_map] at hset
  rw [write, collected, length_filled (Nat.le_of_lt hroom), if_pos (List.length_map entry ▸ hroom),
    hset, collected, bitsBelow_next_of_isSet h, List.map_append, List.map_singleton]

end Collecting

/-! ## The loops -/

theorem increment_ok {width n : Nat} (h : n + 1 < 2 ^ width) : increment width n = .ok (n + 1) :=
  if_pos h

theorem increment_i (i : Idx) : increment 16 i.val = .ok (i.val + 1) :=
  increment_ok (Nat.lt_of_le_of_lt i.isLt (by decide))

theorem length_bitsBelow_lt_word (mask : BitVec 256) (k : Nat) :
    (bitsBelow mask k).length + 1 < 2 ^ 256 := by
  have hlen := length_bitsBelow_le mask k
  have hcard := Finset.card_le_univ (ones mask)
  rw [Fintype.card_fin] at hcard
  have hword : 257 < 2 ^ 256 := by decide
  omega

theorem intoArrayBody_eq (mask : BitVec 256) (i : Idx) :
    intoArrayBody mask ⟨i.val, (bitsBelow mask i.val).length, collected mask id 0 i.val⟩ =
      .ok ⟨i.val + 1, (bitsBelow mask (i.val + 1)).length, collected mask id 0 (i.val + 1)⟩ := by
  rw [intoArrayBody]
  simp only [Fin.ofNat_val_eq_self]
  split
  · next h =>
    have hwrite := write_collected id 0 h
    rw [id] at hwrite
    rw [increment_ok (length_bitsBelow_lt_word mask i.val), bitsBelow_next_of_isSet h,
      List.length_append, List.length_singleton]
    simp only [bind, Except.bind, hwrite, increment_i]
  · next h =>
    simp only [bind, Except.bind, increment_i, bitsBelow_next_of_not_isSet h, collected]

theorem idx_of_le_last {mask : BitVec 256} {k : Nat} (h : k < (findLastSet mask).val + 1) :
    ∃ i : Idx, i.val = k :=
  ⟨⟨k, by omega⟩, rfl⟩

theorem intoArray_eq (mask : BitVec 256) (more : Nat) :
    intoArray mask (257 + more) = some (.ok (bits mask)) := by
  let states : Nat → Collecting Nat Idx := fun k =>
    ⟨k, (bitsBelow mask k).length, collected mask id 0 k⟩
  have hloop : loop (fun s => s.i ≤ (findLastSet mask).val) (intoArrayBody mask) (257 + more) (states 0) =
      some (.ok (states ((findLastSet mask).val + 1))) := by
    refine loop_of_states states (fun k hk => ?_) (fun k hk => ?_) ?_ ?_
    · exact decide_eq_true (Nat.le_of_lt_succ hk)
    · obtain ⟨i, rfl⟩ := idx_of_le_last hk
      exact intoArrayBody_eq mask i
    · exact decide_eq_false (Nat.not_succ_le_self _)
    · omega
  simp only [states, collected_zero, bitsBelow_zero, List.length_nil, collected_last, List.map_id] at hloop
  rw [intoArray, hloop]
  rfl

section Operators

variable (s : State)

/-- The state of the loop before its turn for slot `k`, also for the slot 256 it wraps around at. -/
def findingAddresses (k : Nat) : Collecting Idx Address :=
  ⟨Fin.ofNat 256 k, (bitsBelow s.operatorBitmask k).length,
    collected s.operatorBitmask (fun i => (s.operatorSlots i).addr) 0 k⟩

theorem getAllOperatorsBody_eq (i : Idx) :
    getAllOperatorsBody s (findingAddresses s i.val) = .ok (findingAddresses s (i.val + 1)) := by
  have hnext : i + 1 = Fin.ofNat 256 (i.val + 1) := Fin.ext (Fin.val_add i 1)
  rw [getAllOperatorsBody]
  simp only [findingAddresses, Fin.ofNat_val_eq_self]
  split
  · next h =>
    have hwrite := write_collected (fun i => (s.operatorSlots i).addr) 0 h
    have hcount := Nat.mod_eq_of_lt (length_bitsBelow_lt_word s.operatorBitmask i.val)
    simp only [bind, Except.bind, hwrite, hcount, hnext, bitsBelow_next_of_isSet h,
      List.length_append, List.length_singleton]
  · next h => simp only [bind, Except.bind, hnext, bitsBelow_next_of_not_isSet h, collected]

theorem operatorAddresses_eq (more : Nat) :
    operatorAddresses s (257 + more) =
      some (.ok ((bits s.operatorBitmask).map fun i => (s.operatorSlots i).addr)) := by
  -- the loop ends behind the last slot, or at once if there is none
  let turns := if s.operatorBitmask = 0 then 0 else (findLastSet s.operatorBitmask).val + 1
  have hall : bitsBelow s.operatorBitmask turns = bits s.operatorBitmask := by
    refine bitsBelow_eq_bits fun i hi => ?_
    have hne := ne_zero_of_mem_ones hi
    simp only [turns, if_neg hne]
    exact Nat.lt_succ_of_le ((findLastSet_mem hne).2 i hi)
  have hlt : ∀ k < turns, k ≤ (findLastSet s.operatorBitmask).val ∧ s.operatorBitmask ≠ 0 := by
    intro k hk
    simp only [turns] at hk
    split at hk
    · cases hk
    · next hne => exact ⟨Nat.le_of_lt_succ hk, hne⟩
  have hloop : loop (fun l => l.i.val < maxOperators && l.count < countSet s.operatorBitmask)
      (getAllOperatorsBody s) (257 + more) (findingAddresses s 0) =
        some (.ok (findingAddresses s turns)) := by
    refine loop_of_states (findingAddresses s) (fun k hk => ?_) (fun k hk => ?_) ?_ ?_
    · obtain ⟨hle, hne⟩ := hlt k hk
      rw [Bool.and_eq_true, decide_eq_true_iff, decide_eq_true_iff]
      exact ⟨Fin.isLt _, length_bitsBelow_lt (findLastSet_mem hne).1 hle⟩
    · obtain ⟨i, rfl⟩ := idx_of_le_last (Nat.lt_succ_of_le (hlt k hk).1)
      exact getAllOperatorsBody_eq s i
    · have hcount : ¬(findingAddresses s turns).count < countSet s.operatorBitmask := by
        rw [findingAddresses, hall, length_bits, countSet]
        exact Nat.lt_irrefl _
      rw [decide_eq_false hcount, Bool.and_false]
    · simp only [turns]
      split <;> omega
  have hstart : findingAddresses s 0 = ⟨0, 0, List.replicate (countSet s.operatorBitmask) 0⟩ := by
    rw [findingAddresses, collected_zero]
    rfl
  have hend : (findingAddresses s turns).array =
      (bits s.operatorBitmask).map fun i => (s.operatorSlots i).addr := by
    rw [findingAddresses, collected, hall, filled_full]
    rw [List.length_map, length_bits, countSet]
  rw [operatorAddresses, ← hstart, hloop, ← hend]
  rfl

/-- The entry of `getView` for slot `j`. -/
def viewSlot (j : Nat) : NodeOperator :=
  if isSet s.operatorBitmask (Fin.ofNat 256 j) then s.operatorSlots (Fin.ofNat 256 j) else {}

/-- The array of `getView` before its turn for slot `k`. -/
def viewed (k : Nat) : List NodeOperator :=
  filled ((findLastSet s.operatorBitmask).val + 1) {} ((List.range k).map (viewSlot s))

theorem viewed_zero : viewed s 0 = List.replicate ((findLastSet s.operatorBitmask).val + 1) {} := rfl

theorem viewed_last :
    viewed s ((findLastSet s.operatorBitmask).val + 1) = (getView s).operatorSlots := by
  rw [viewed, filled_full]
  · rfl
  · rw [List.length_map, List.length_range]

theorem getViewBody_eq {i : Idx} (hi : i ≤ findLastSet s.operatorBitmask) :
    getViewBody s ⟨i.val, viewed s i.val⟩ = .ok ⟨i.val + 1, viewed s (i.val + 1)⟩ := by
  have hroom : ((List.range i.val).map (viewSlot s)).length < (findLastSet s.operatorBitmask).val + 1 := by
    rw [List.length_map, List.length_range]
    exact Nat.lt_succ_of_le hi
  have hnext : viewed s (i.val + 1) = filled ((findLastSet s.operatorBitmask).val + 1) {}
      ((List.range i.val).map (viewSlot s) ++ [viewSlot s i.val]) := by
    rw [viewed, List.range_succ, List.map_append, List.map_singleton]
  have hlen : i.val < (viewed s i.val).length := by
    rw [viewed, length_filled (Nat.le_of_lt hroom)]
    exact Nat.lt_succ_of_le hi
  rw [getViewBody]
  simp only [Fin.ofNat_val_eq_self]
  split
  · next h =>
    have hset := set_filled hroom {} (viewSlot s i.val)
    rw [← hnext, List.length_map, List.length_range, ← viewed, viewSlot, Fin.ofNat_val_eq_self,
      if_pos h] at hset
    simp only [bind, Except.bind, write, if_pos hlen, hset, increment_i]
  · next h =>
    have hblank : viewSlot s i.val = {} := by rw [viewSlot, Fin.ofNat_val_eq_self, if_neg h]
    rw [hblank, filled_append_blank hroom, ← viewed] at hnext
    simp only [bind, Except.bind, increment_i, hnext]

theorem viewSlots_eq (more : Nat) :
    viewSlots s (257 + more) = some (.ok (getView s).operatorSlots) := by
  have hloop : loop (fun l => l.i ≤ (findLastSet s.operatorBitmask).val) (getViewBody s) (257 + more)
      ⟨0, viewed s 0⟩ = some (.ok ⟨(findLastSet s.operatorBitmask).val + 1,
        viewed s ((findLastSet s.operatorBitmask).val + 1)⟩) := by
    refine loop_of_states (fun k => Viewing.mk k (viewed s k)) (fun k hk => ?_) (fun k hk => ?_) ?_ ?_
    · exact decide_eq_true (Nat.le_of_lt_succ hk)
    · obtain ⟨i, rfl⟩ := idx_of_le_last hk
      exact getViewBody_eq s (Nat.le_of_lt_succ hk)
    · exact decide_eq_false (Nat.not_succ_le_self _)
    · omega
  rw [viewed_zero, viewed_last] at hloop
  rw [viewSlots, hloop]
  rfl

theorem getAllOperators_eq (more : Nat) :
    getAllOperators s (257 + more) = some (.ok
      (((bits s.operatorBitmask).map fun i => (s.operatorSlots i).addr).mergeSort (· ≤ ·))) := by
  rw [getAllOperators, operatorAddresses_eq]
  rfl

theorem getElem?_operatorSlots (i : Idx) :
    (getView s).operatorSlots[i.val]? =
      if i ≤ findLastSet s.operatorBitmask then some (viewSlot s i.val) else none := by
  have hslots : (getView s).operatorSlots =
      (List.range ((findLastSet s.operatorBitmask).val + 1)).map (viewSlot s) := rfl
  rw [hslots, List.getElem?_map]
  split
  · next hi => rw [List.getElem?_range (Nat.lt_succ_of_le hi), Option.map_some]
  · next hi =>
    rw [List.getElem?_eq_none, Option.map_none]
    rw [List.length_range]
    exact Nat.lt_of_not_le hi

end Operators

/-! ## Every set slot, once -/

/-- The arrays that are built from a bitmask hold its slots in ascending order, each once, and
`getView` has an entry for each of them. -/
theorem bitmask_enumeration :
    (∀ mask : BitVec 256, ∃ array : List Idx,
      (∀ more, intoArray mask (257 + more) = some (.ok array)) ∧
      array.Pairwise (· < ·) ∧ (∀ i, i ∈ array ↔ isSet mask i = true) ∧ fromArray array = mask) ∧
    ∀ s : State,
      (∃ visited : List Idx, visited.Pairwise (· < ·) ∧
        (∀ i, i ∈ visited ↔ isSet s.operatorBitmask i = true) ∧
        ∀ more, operatorAddresses s (257 + more) =
            some (.ok (visited.map fun i => (s.operatorSlots i).addr)) ∧
          ∃ addresses, getAllOperators s (257 + more) = some (.ok addresses) ∧
            addresses.Pairwise (· ≤ ·) ∧
            addresses.Perm (visited.map fun i => (s.operatorSlots i).addr)) ∧
      (∀ more, viewSlots s (257 + more) = some (.ok (getView s).operatorSlots)) ∧
      ∀ i : Idx, (getView s).operatorSlots[i.val]? =
        if isSet s.operatorBitmask i then some (s.operatorSlots i)
        else if i ≤ findLastSet s.operatorBitmask then some {} else none := by
  have hmem : ∀ mask i, i ∈ bits mask ↔ isSet mask i = true := fun mask i => by
    rw [mem_bits, isSet_iff]
  refine ⟨fun mask => ⟨bits mask, intoArray_eq mask, pairwise_bits mask, hmem mask, fromArray_bits mask⟩,
    fun s => ⟨⟨bits s.operatorBitmask, pairwise_bits _, hmem _, fun more =>
      ⟨operatorAddresses_eq s more, _, getAllOperators_eq s more, ?_, List.mergeSort_perm _ _⟩⟩,
      viewSlots_eq s, fun i => ?_⟩⟩
  · exact List.pairwise_mergeSort' (· ≤ ·) _
  · rw [getElem?_operatorSlots, viewSlot, Fin.ofNat_val_eq_self]
    by_cases hset : isSet s.operatorBitmask i = true
    · have hmask := isSet_iff.mp hset
      rw [if_pos hset, if_pos hset, if_pos ((findLastSet_mem (ne_zero_of_mem_ones hmask)).2 i hmask)]
    · rw [if_neg hset, if_neg hset]

end Contract
end Wcn
