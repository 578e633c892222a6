import Wcn.Lib.IndexMap
import Wcn.Cluster.SmartContract

/-!
# Wcn.Cluster.NodeOperators

The slot map of node operators a node keeps: the slots, and an index from operator ids to slots.

* `fromSlots`, `set` and the lookups, as the source has them. `set` panics (`none`) on a slot
  beyond the end that `expand` did not reach.
* `Consistent` — the index holds exactly the ids of the occupied slots. `fromSlots` establishes it,
  `set` keeps it.
-/

namespace Wcn
namespace Cluster

open Lib
open Contract (Address Bytes)
open Contract.Bitmask (Idx)

variable {S D : Type}

def minOperators : Nat := 5

def maxOperators : Nat := 256

/-- Errors of decoding on-chain settings. -/
inductive SettingsError where
  | emptyBuffer
  | codec (message : String)
  | unknownSchemaVersion (version : Nat)
deriving DecidableEq

/-- How on-chain settings and operator data are decoded: `TryFrom<smart_contract::Settings>` and
`NodeOperator::try_from_sc`. -/
structure Config (S D : Type) where
  settings : SmartContract.Settings → Except SettingsError S
  nodeOperator : SmartContract.NodeOperator → Option D

/-- An operator with its decoded data, `none` for the placeholder `new_corrupted`. -/
structure NodeOperator (D : Type) where
  id : Address
  data : Option D

def NodeOperator.fromSc (cfg : Config S D) (operator : SmartContract.NodeOperator) : NodeOperator D :=
  ⟨operator.id, cfg.nodeOperator operator⟩

structure NodeOperators (D : Type) where
  idToIdx : IndexMap Address Idx
  slots : List (Option (NodeOperator D))

namespace NodeOperators

inductive CreationError where
  | tooManyOperatorSlots (len : Nat)
  | tooFewOperators (len : Nat)
  | operatorDuplicate (id : Address)
deriving DecidableEq

/-- The loop of `from_slots`, from slot `idx` on. -/
def indexSlots (idx : Nat) (idToIdx : IndexMap Address Idx) :
    List (Option (NodeOperator D)) → Except CreationError (IndexMap Address Idx)
  | [] => .ok idToIdx
  | none :: slots => indexSlots (idx + 1) idToIdx slots
  | some operator :: slots =>
    if (idToIdx.get? operator.id).isSome then
      .error (.operatorDuplicate operator.id)
    else
      indexSlots (idx + 1) (idToIdx.insert operator.id (Fin.ofNat 256 idx)) slots

def fromSlots (slots : List (Option (NodeOperator D))) : Except CreationError (NodeOperators D) :=
  if slots.length < minOperators then
    .error (.tooFewOperators slots.length)
  else if maxOperators < slots.length then
    .error (.tooManyOperatorSlots slots.length)
  else do
    let idToIdx ← indexSlots 0 .empty slots
    .ok ⟨idToIdx, slots⟩

def getByIdx (operators : NodeOperators D) (idx : Idx) : Option (NodeOperator D) :=
  (operators.slots[idx.val]?).join

def getIdx (operators : NodeOperators D) (id : Address) : Option Idx := operators.idToIdx.get? id

def contains (operators : NodeOperators D) (id : Address) : Bool := (operators.getIdx id).isSome

def containsIdx (operators : NodeOperators D) (idx : Idx) : Bool := (operators.getByIdx idx).isSome

def expand (slots : List (Option (NodeOperator D))) (idx : Idx) : List (Option (NodeOperator D)) :=
  slots ++ List.replicate (idx.val + 1 - slots.length) none

def set (operators : NodeOperators D) (idx : Idx) (slot : Option (NodeOperator D)) :
    Option (NodeOperators D) :=
  let idToIdx :=
    match operators.getByIdx idx with
    | some operator => operators.idToIdx.shiftRemove operator.id
    | none => operators.idToIdx
  let slots :=
    if idx.val ≤ operators.slots.length then expand operators.slots idx else operators.slots
  let idToIdx :=
    match slot with
    | some operator => idToIdx.insert operator.id idx
    | none => idToIdx
  if idx.val < slots.length then some ⟨idToIdx, slots.set idx.val slot⟩ else none

/-- The index holds the ids of the occupied slots, each with its slot. -/
def Consistent (operators : NodeOperators D) : Prop :=
  ∀ id idx, operators.getIdx id = some idx ↔ ∃ operator, operators.getByIdx idx = some operator ∧
    operator.id = id

theorem indexSlots_ok {slots : List (Option (NodeOperator D))} {idx : Nat}
    {idToIdx idToIdx' : IndexMap Address Idx} (hlen : idx + slots.length ≤ 256)
    (h : indexSlots idx idToIdx slots = .ok idToIdx') (id : Address) (i : Idx) :
    idToIdx'.get? id = some i ↔ idToIdx.get? id = some i ∨
      ∃ k operator, slots[k]? = some (some operator) ∧ operator.id = id ∧ i.val = idx + k := by
  induction slots generalizing idx idToIdx with
  | nil =>
    rw [indexSlots, Except.ok.injEq] at h
    simp [h]
  | cons slot slots ih =>
    rw [List.length_cons] at hlen
    -- the slots behind the first one are counted from the next index on
    have hshift : (∃ k operator, slots[k]? = some (some operator) ∧ operator.id = id ∧
          i.val = idx + 1 + k) ↔
        ∃ k operator, (slot :: slots)[k + 1]? = some (some operator) ∧ operator.id = id ∧
          i.val = idx + (k + 1) := by
      simp only [List.getElem?_cons_succ, Nat.add_assoc, Nat.add_comm 1]
    have hsplit : ∀ P : Nat → Prop, (∃ k, P k) ↔ P 0 ∨ ∃ k, P (k + 1) := fun P =>
      ⟨fun ⟨k, hk⟩ => by cases k with
        | zero => exact .inl hk
        | succ k => exact .inr ⟨k, hk⟩,
      fun hk => hk.elim (⟨0, ·⟩) fun ⟨k, hk⟩ => ⟨k + 1, hk⟩⟩
    rw [hsplit, ← hshift]
    cases slot with
    | none =>
      rw [indexSlots] at h
      rw [ih (by omega) h]
      simp
    | some operator =>
      rw [indexSlots] at h
      split at h
      · cases h
      · next hnew =>
        rw [ih (by omega) h, IndexMap.get?_insert]
        have hnone : idToIdx.get? operator.id = none := by simpa using hnew
        have hidx : i.val = idx ↔ Fin.ofNat 256 idx = i := by
          rw [Fin.ext_iff, Fin.val_ofNat, Nat.mod_eq_of_lt (by omega), eq_comm]
        by_cases hid : id = operator.id
        · subst hid
          simp [hnone, hidx]
        · simp [hid, Ne.symm hid]

/-- No operator is in two slots. -/
def Distinct (slots : List (Option (NodeOperator D))) : Prop :=
  ∀ {i j : Nat} {operator operator' : NodeOperator D}, slots[i]? = some (some operator) →
    slots[j]? = some (some operator') → operator.id = operator'.id → i = j

theorem exists_indexSlots {slots : List (Option (NodeOperator D))} {idx : Nat}
    {idToIdx : IndexMap Address Idx}
    (hnew : ∀ operator, some operator ∈ slots → idToIdx.get? operator.id = none)
    (hdistinct : Distinct slots) : ∃ idToIdx', indexSlots idx idToIdx slots = .ok idToIdx' := by
  induction slots generalizing idx idToIdx with
  | nil => exact ⟨idToIdx, rfl⟩
  | cons slot slots ih =>
    have hrest : Distinct slots := fun hi hj hid =>
      Nat.succ.inj (hdistinct (i := _ + 1) (j := _ + 1) hi hj hid)
    cases slot with
    | none => exact ih (fun operator ho => hnew operator (List.mem_cons_of_mem _ ho)) hrest
    | some operator =>
      rw [indexSlots, hnew operator List.mem_cons_self, if_neg (by simp)]
      refine ih (fun other ho => ?_) hrest
      have hne : other.id ≠ operator.id := by
        intro hid
        obtain ⟨k, hk⟩ := List.mem_iff_getElem?.mp ho
        exact absurd (hdistinct (i := k + 1) (j := 0) hk rfl hid) (Nat.succ_ne_zero k)
      rw [IndexMap.get?_insert, if_neg hne]
      exact hnew other (List.mem_cons_of_mem _ ho)

theorem fromSlots_ok {slots : List (Option (NodeOperator D))} {operators : NodeOperators D}
    (h : fromSlots slots = .ok operators) : operators.slots = slots ∧ operators.Consistent := by
  rw [fromSlots] at h
  split at h
  · cases h
  · split at h
    · cases h
    · next hmax =>
      cases hidx : indexSlots 0 .empty slots with
      | error e => simp [hidx, bind, Except.bind] at h
      | ok idToIdx =>
        simp only [hidx, bind, Except.bind, Except.ok.injEq] at h
        subst h
        refine ⟨rfl, fun id i => ?_⟩
        rw [getIdx, indexSlots_ok (by simp only [maxOperators] at hmax; omega) hidx]
        simp only [IndexMap.get?_empty, getByIdx, Option.join_eq_some_iff, Nat.zero_add]
        constructor
        · rintro (hnone | ⟨k, operator, hk, hid, hi⟩)
          · cases hnone
          · exact ⟨operator, hi ▸ hk, hid⟩
        · rintro ⟨operator, hk, hid⟩
          exact .inr ⟨i, operator, hk, hid, rfl⟩

theorem length_of_fromSlots {slots : List (Option (NodeOperator D))} {operators : NodeOperators D}
    (h : fromSlots slots = .ok operators) :
    minOperators ≤ slots.length ∧ slots.length ≤ maxOperators := by
  rw [fromSlots] at h
  split at h
  · cases h
  · next hmin =>
    split at h
    · cases h
    · next hmax => exact ⟨Nat.le_of_not_lt hmin, Nat.le_of_not_lt hmax⟩

theorem exists_fromSlots {slots : List (Option (NodeOperator D))}
    (hmin : minOperators ≤ slots.length) (hmax : slots.length ≤ maxOperators)
    (hdistinct : Distinct slots) : ∃ operators, fromSlots slots = .ok operators := by
  have hempty : ∀ operator, some operator ∈ slots →
      (IndexMap.empty : IndexMap Address Idx).get? operator.id = none := fun _ _ => rfl
  obtain ⟨idToIdx, hidx⟩ : ∃ idToIdx, indexSlots 0 .empty slots = .ok idToIdx :=
    exists_indexSlots hempty hdistinct
  rw [fromSlots, if_neg (Nat.not_lt.mpr hmin), if_neg (Nat.not_lt.mpr hmax), hidx]
  exact ⟨_, rfl⟩

/-! ## Changing a slot -/

section Set

variable {operators operators' : NodeOperators D} {idx : Idx} {slot : Option (NodeOperator D)}

theorem length_expand (slots : List (Option (NodeOperator D))) (idx : Idx) :
    (expand slots idx).length = max slots.length (idx.val + 1) := by
  rw [expand, List.length_append, List.length_replicate]
  omega

theorem lt_length_expand (slots : List (Option (NodeOperator D))) (idx : Idx) :
    idx.val < (expand slots idx).length := by
  rw [length_expand]
  omega

theorem getElem?_expand (slots : List (Option (NodeOperator D))) (idx : Idx) (k : Nat) :
    ((expand slots idx)[k]?).join = (slots[k]?).join := by
  rw [expand]
  by_cases hk : k < slots.length
  · rw [List.getElem?_append_left hk]
  · rw [List.getElem?_append_right (by omega), List.getElem?_replicate,
      List.getElem?_eq_none (Nat.le_of_not_lt hk)]
    split <;> rfl

theorem exists_set (h : idx.val ≤ operators.slots.length) (slot : Option (NodeOperator D)) :
    ∃ operators', operators.set idx slot = some operators' := by
  have hlt := lt_length_expand operators.slots idx
  simp only [set, if_pos h, if_pos hlt]
  exact ⟨_, rfl⟩

theorem le_length_of_set (h : operators.set idx slot = some operators') :
    idx.val ≤ operators.slots.length := by
  by_contra hle
  simp only [set, if_neg hle, if_neg (show ¬ idx.val < operators.slots.length by omega)] at h
  cases h

theorem length_set (h : operators.set idx slot = some operators') :
    operators'.slots.length = max operators.slots.length (idx.val + 1) := by
  have hle := le_length_of_set h
  have hlt := lt_length_expand operators.slots idx
  simp only [set, if_pos hle, if_pos hlt, Option.some.injEq] at h
  rw [← h, List.length_set, length_expand]

theorem getByIdx_set (h : operators.set idx slot = some operators') (j : Idx) :
    operators'.getByIdx j = if j = idx then slot else operators.getByIdx j := by
  have hle := le_length_of_set h
  have hlt := lt_length_expand operators.slots idx
  simp only [set, if_pos hle, if_pos hlt, Option.some.injEq] at h
  subst h
  simp only [getByIdx]
  by_cases hj : j = idx
  · subst hj
    rw [if_pos rfl, List.getElem?_set_self hlt, Option.join_some]
  · have hne : idx.val ≠ j.val := fun heq => hj (Fin.ext heq.symm)
    rw [if_neg hj, List.getElem?_set_ne hne, getElem?_expand]

theorem getIdx_set (h : operators.set idx slot = some operators') (id : Address) :
    operators'.getIdx id =
      if slot.map NodeOperator.id = some id then some idx
      else if (operators.getByIdx idx).map NodeOperator.id = some id then none
      else operators.getIdx id := by
  have hle := le_length_of_set h
  have hlt := lt_length_expand operators.slots idx
  simp only [set, if_pos hle, if_pos hlt, Option.some.injEq] at h
  subst h
  simp only [getIdx]
  cases slot <;> cases operators.getByIdx idx <;>
    simp [IndexMap.get?_insert, IndexMap.get?_shiftRemove, eq_comm]

/-- Changing a slot keeps the index consistent, unless the new operator is already in another
slot. -/
theorem Consistent.set (hcons : operators.Consistent) (h : operators.set idx slot = some operators')
    (hfree : ∀ operator, slot = some operator → ∀ j, operators.getIdx operator.id = some j → j = idx) :
    operators'.Consistent := by
  intro id j
  rw [getIdx_set h, getByIdx_set h]
  by_cases hnew : slot.map NodeOperator.id = some id
  · obtain ⟨operator, rfl, rfl⟩ := Option.map_eq_some_iff.mp hnew
    rw [if_pos hnew, Option.some.injEq]
    by_cases hj : j = idx
    · simp [hj]
    · rw [if_neg hj, ← hcons]
      exact ⟨fun heq => absurd heq.symm hj, fun hold => absurd (hfree operator rfl j hold) hj⟩
  · rw [if_neg hnew]
    by_cases hj : j = idx
    · -- the slot now holds something else, and what it held is no longer in the index
      subst hj
      rw [if_pos rfl]
      have hno : ¬ ∃ operator, slot = some operator ∧ operator.id = id := by
        rintro ⟨operator, rfl, hid⟩
        exact hnew (by rw [Option.map_some, hid])
      by_cases hold : (operators.getByIdx j).map NodeOperator.id = some id
      · simp [hold, hno]
      · have hidx : operators.getIdx id ≠ some j := fun heq => by
          obtain ⟨operator, hop, hid⟩ := (hcons id j).mp heq
          exact hold (by rw [hop, Option.map_some, hid])
        simp [hold, hno, hidx]
    · rw [if_neg hj, ← hcons]
      by_cases hold : (operators.getByIdx idx).map NodeOperator.id = some id
      · obtain ⟨operator, hop, rfl⟩ := Option.map_eq_some_iff.mp hold
        have hidx := (hcons operator.id idx).mpr ⟨operator, hop, rfl⟩
        simp [hold, hidx, Ne.symm hj]
      · rw [if_neg hold]

end Set

end NodeOperators

end Cluster
end Wcn
