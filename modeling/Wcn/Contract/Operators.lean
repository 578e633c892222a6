import Wcn.Contract.Keyspaces

/-!
# Wcn.Contract.Operators

The slot map of operators over whole runs, by any calls of anybody.

An address without a slot has index 0, so whatever slot 0 holds is what the contract compares it with.
For the zero address that is wrong as soon as slot 0 is free.

* `SlotMap` — bitmask, slots and indexes describe the same operators, and `isOperator` finds them.
* `Cleared` — free slots hold nothing.
-/

namespace Wcn
namespace Contract

open Lib Bitmask

structure SlotMap (s : State) : Prop where
  occupied : ∀ i, i ∈ ones s.operatorBitmask ↔ (s.operatorSlots i).addr ≠ 0
  distinct : ∀ i ∈ ones s.operatorBitmask, ∀ j ∈ ones s.operatorBitmask,
    (s.operatorSlots i).addr = (s.operatorSlots j).addr → i = j
  indexed : ∀ i ∈ ones s.operatorBitmask, s.operatorSlotIndexes (s.operatorSlots i).addr = i
  isOperator : ∀ a, isOperator s a = true ↔
    ∃ i ∈ ones s.operatorBitmask, (s.operatorSlots i).addr = a

section SlotMap

variable {s s' : State} {msg : Msg} {call : Call} {event : Event}

theorem isOperator_iff {a : Address} : isOperator s a = true ↔ s.IsOperator a := by
  rw [isOperator, beq_iff_eq]

/-- The contract finds the operators in its slots. It also takes the zero address for an operator
when slot 0 is free. -/
theorem Registry.isOperator_iff_mem (hs : Registry s) {a : Address}
    (ha : a ≠ 0 ∨ 0 ∈ ones s.operatorBitmask) :
    s.IsOperator a ↔ ∃ i ∈ ones s.operatorBitmask, (s.operatorSlots i).addr = a := by
  constructor
  · intro hop
    have hne : a ≠ 0 := by
      rintro rfl
      rw [State.IsOperator, hs.zero] at hop
      exact (hs.occupied 0).mp (ha.resolve_left (not_not.mpr rfl)) hop
    exact ⟨_, hs.mem_of_isOperator hne hop, hop⟩
  · rintro ⟨i, hi, rfl⟩
    rw [State.IsOperator, hs.indexed i hi]

theorem Registry.isOperator_zero_iff (hs : Registry s) :
    s.IsOperator 0 ↔ 0 ∉ ones s.operatorBitmask := by
  rw [State.IsOperator, hs.zero, hs.occupied 0, not_not]

theorem Registry.slotMap_iff (hs : Registry s) : SlotMap s ↔ 0 ∈ ones s.operatorBitmask := by
  constructor
  · intro hmap
    by_contra hfree
    obtain ⟨i, hi, haddr⟩ := (hmap.isOperator 0).mp
      (isOperator_iff.mpr (hs.isOperator_zero_iff.mpr hfree))
    exact (hs.occupied i).mp hi haddr
  · intro hmem
    refine ⟨hs.occupied, fun i hi j _ haddr => hs.slot_unique hi haddr, hs.indexed, fun a => ?_⟩
    rw [isOperator_iff, hs.isOperator_iff_mem (.inr hmem)]

/-- A call that does not remove the operator of slot 0. -/
def KeepsSlotZero (s : State) : Call → Prop
  | .removeNodeOperator operatorAddr => s.operatorSlotIndexes operatorAddr ≠ 0
  | _ => True

/-- The bit of slot 0 is lost by removing its operator, and in no other way. -/
theorem zero_mem_iff (hs : 0 ∈ ones s.operatorBitmask) (h : Transition msg s call s' event) :
    0 ∈ ones s'.operatorBitmask ↔ KeepsSlotZero s call := by
  cases h with
  | @addNodeOperator operator _ _ _ _ _ _ _ =>
    refine iff_of_true ?_ trivial
    rw [State.setOperator, ones_set]
    exact Finset.mem_insert_of_mem hs
  | @removeNodeOperator a slotIdx _ hidx _ _ _ _ _ =>
    rw [KeepsSlotZero, hidx, ones_unset, Finset.mem_erase, and_iff_left hs]
    exact ne_comm
  | _ => exact iff_of_true hs trivial

theorem slotMap_transition (hr : Registry s) (hs : SlotMap s) (h : Transition msg s call s' event) :
    SlotMap s' ↔ KeepsSlotZero s call := by
  rw [(registry_transition hr h).slotMap_iff]
  exact zero_mem_iff (hr.slotMap_iff.mp hs) h

theorem registered_calls :
    Invariant (Calls KeepsSlotZero) fun s => Registry s ∧ SlotMap s := by
  rintro s s' ⟨hr, hs⟩ ⟨msg, call, event, hkeeps, h⟩
  rw [exec_iff] at h
  exact ⟨registry_transition hr h, (slotMap_transition hr hs h).mpr hkeeps⟩

end SlotMap

/-! ## Initial slots -/

section Initial

variable {env : Env} {settings : Settings} {operators : List NodeOperator} {s s' : State}

theorem operatorSlots_setOperator (slotIdx : Idx) (operator : NodeOperator) :
    (s.setOperator slotIdx operator).operatorSlots =
      Function.update s.operatorSlots slotIdx operator := rfl

theorem operatorSlots_initializeOperators {i : Nat} (hlen : i + operators.length ≤ 256)
    (h : initializeOperators i s operators = .ok s') (j : Idx) :
    s'.operatorSlots j =
      if i ≤ j.val then (operators[j.val - i]?).getD (s.operatorSlots j) else s.operatorSlots j := by
  induction operators generalizing i s with
  | nil =>
    rw [initializeOperators, Except.ok.injEq] at h
    simp [h]
  | cons op operators ih =>
    rw [List.length_cons] at hlen
    rw [initializeOperators, bind_eq_ok] at h
    obtain ⟨_, _, h⟩ := h
    dsimp only at h
    split_ifs at h
    rw [ih (by omega) h]
    have hval : (Fin.ofNat 256 i).val = i := Nat.mod_eq_of_lt (by omega)
    rcases Nat.lt_trichotomy i j.val with hlt | heq | hgt
    · have hne : j ≠ Fin.ofNat 256 i := fun hj => by rw [hj, hval] at hlt; omega
      rw [if_pos (by omega), if_pos (by omega), operatorSlots_setOperator, Function.update_of_ne hne,
        show j.val - i = (j.val - (i + 1)) + 1 by omega, List.getElem?_cons_succ]
    · have hj : j = Fin.ofNat 256 i := Fin.ext (by rw [hval, heq])
      rw [if_neg (by omega), if_pos (by omega), ← heq, Nat.sub_self, List.getElem?_cons_zero,
        operatorSlots_setOperator, hj, Function.update_self]
      rfl
    · have hne : j ≠ Fin.ofNat 256 i := fun hj => by rw [hj, hval] at hgt; omega
      rw [if_neg (by omega), if_neg (by omega), operatorSlots_setOperator, Function.update_of_ne hne]

/-- The operators are in the first slots, in their order. -/
theorem operatorSlots_initialized (h : initializeCluster env settings operators = .ok s) (j : Idx) :
    s.operatorSlots j = (operators[j.val]?).getD {} := by
  unfold initializeCluster at h
  split_ifs at h
  rw [bind_eq_ok] at h
  obtain ⟨s₁, hinit, h⟩ := h
  rw [Except.ok.injEq] at h
  have hslot := operatorSlots_initializeOperators (by omega) hinit j
  rw [if_pos (Nat.zero_le _), Nat.sub_zero] at hslot
  rw [← h]
  exact hslot

theorem mem_ones_initialized (h : initializeCluster env settings operators = .ok s) {j : Idx} :
    j ∈ ones s.operatorBitmask ↔ j.val < operators.length := by
  rw [(ones_initialized h).1, Finset.mem_filter, and_iff_right (Finset.mem_univ j)]

theorem slotMap_initialized (h : initializeCluster env settings operators = .ok s) :
    SlotMap s ↔ operators ≠ [] ∧ (∀ op ∈ operators, op.addr ≠ 0) ∧
      (operators.map NodeOperator.addr).Nodup := by
  have hmax := (initializeCluster_ok h).2.1
  have hslot : ∀ {k : Nat} {op : NodeOperator}, operators[k]? = some op →
      ∃ i : Idx, i.val = k ∧ i ∈ ones s.operatorBitmask ∧ s.operatorSlots i = op := by
    intro k op hk
    have hlt := (List.getElem?_eq_some_iff.mp hk).1
    have hval : (Fin.ofNat 256 k).val = k := Nat.mod_eq_of_lt (by omega)
    refine ⟨Fin.ofNat 256 k, hval, (mem_ones_initialized h).mpr (by omega), ?_⟩
    rw [operatorSlots_initialized h, hval, hk]
    rfl
  constructor
  · intro hmap
    refine ⟨?_, ?_, ?_⟩
    · rintro rfl
      -- slot 0 is free, and the zero address passes for its operator
      have hfree : ∀ i, i ∉ ones s.operatorBitmask := fun i hi =>
        absurd ((mem_ones_initialized h).mp hi) (Nat.not_lt_zero _)
      have hempty : ∀ i, (s.operatorSlots i).addr = 0 := fun i =>
        not_not.mp ((hmap.occupied i).not.mp (hfree i))
      obtain ⟨i, hi, _⟩ := (hmap.isOperator 0).mp (isOperator_iff.mpr (hempty _))
      exact hfree i hi
    · intro op hop
      obtain ⟨k, hk⟩ := List.mem_iff_getElem?.mp hop
      obtain ⟨i, _, hi, rfl⟩ := hslot hk
      exact (hmap.occupied i).mp hi
    · refine List.nodup_iff_getElem?_ne_getElem?.mpr fun k l hkl hl heq => ?_
      rw [List.length_map] at hl
      rw [List.getElem?_map, List.getElem?_map, List.getElem?_eq_getElem hl, Option.map_some,
        Option.map_eq_some_iff] at heq
      obtain ⟨op, hk, haddr⟩ := heq
      obtain ⟨i, hik, hi, rfl⟩ := hslot hk
      obtain ⟨j, hjl, hj, hop⟩ := hslot (List.getElem?_eq_getElem hl)
      rw [← hop] at haddr
      have hij := congrArg Fin.val (hmap.distinct i hi j hj haddr)
      omega
  · rintro ⟨hne, hnonzero, hdistinct⟩
    rw [(registry_initialized hnonzero hdistinct h).slotMap_iff, mem_ones_initialized h]
    exact List.length_pos_iff.mpr hne

end Initial

/-- After an accepted `initialize`, the slot map is a bijection in every state reached by calls that
do not remove the operator of slot 0, exactly when the initial operators are distinct, have non-zero
addresses and are at least one. In all those states, removing the operator of slot 0 breaks it. -/
theorem slotMap_run_iff {env : Env} {settings : Settings} {operators : List NodeOperator}
    {s₀ : State} (hinit : initializeCluster env settings operators = .ok s₀) :
    ((∀ s, Run (Calls KeepsSlotZero) s₀ s → SlotMap s) ↔
      operators ≠ [] ∧ (∀ op ∈ operators, op.addr ≠ 0) ∧ (operators.map NodeOperator.addr).Nodup) ∧
    ((operators ≠ [] ∧ (∀ op ∈ operators, op.addr ≠ 0) ∧ (operators.map NodeOperator.addr).Nodup) →
      ∀ s s' msg call event, Run (Calls KeepsSlotZero) s₀ s → exec msg call s = .ok (s', event) →
        (SlotMap s' ↔ KeepsSlotZero s call)) := by
  have hreached : (operators ≠ [] ∧ (∀ op ∈ operators, op.addr ≠ 0) ∧
      (operators.map NodeOperator.addr).Nodup) →
      ∀ {s}, Run (Calls KeepsSlotZero) s₀ s → Registry s ∧ SlotMap s := fun hops _ hrun =>
    registered_calls.run hrun ⟨registry_initialized hops.2.1 hops.2.2 hinit,
      (slotMap_initialized hinit).mpr hops⟩
  refine ⟨⟨fun hmap => (slotMap_initialized hinit).mp (hmap s₀ .refl), fun hops s hrun =>
    (hreached hops hrun).2⟩, fun hops s s' msg call event hrun h => ?_⟩
  obtain ⟨hr, hs⟩ := hreached hops hrun
  exact slotMap_transition hr hs (exec_iff.mp h)

/-- A seventh operator joins the six. -/
theorem slotMap_run_added :
    ∃ s, Run (Calls KeepsSlotZero) sixOperators s ∧ countSet s.operatorBitmask = 7 ∧ SlotMap s := by
  have hrun : Run (Calls KeepsSlotZero) sixOperators
      (after (transaction 99 11) (.addNodeOperator ⟨7, [0]⟩) sixOperators).1 :=
    .single (calls_after trivial (by decide +kernel))
  exact ⟨_, hrun, by decide +kernel,
    (slotMap_run_iff initialize_sixOperators).1.mpr ⟨by decide, by decide, by decide⟩ _ hrun⟩

/-- The cluster migrates away from the operator of slot 0, which is then removed. -/
def leaveSlotZero : List (Env × Call) := [
  (transaction 99 11, .startMigration ⟨unset (fill 6) 0, 0⟩),
  (transaction 1 12, .completeMigration 1),
  (transaction 2 12, .completeMigration 1),
  (transaction 3 12, .completeMigration 1),
  (transaction 4 12, .completeMigration 1),
  (transaction 5 12, .completeMigration 1),
  (transaction 99 13, .removeNodeOperator 1)]

def withoutFirst : State :=
  (result ⟨sixOperators, 10⟩ (execAll ⟨sixOperators, 10⟩ leaveSlotZero)).state

theorem run_withoutFirst : Run (Calls anyCall) sixOperators withoutFirst :=
  anyCall_execAll (b := ⟨sixOperators, 10⟩) (eq_ok_result (by decide +kernel) _)

/-- `initialize` takes the same operator twice, and one with the zero address. With slot 0 free, the
zero address counts as an operator. -/
theorem not_slotMap :
    (∃ s, initializeCluster (transaction 99 10) ⟨100, 2, [0]⟩ [⟨1, [0]⟩, ⟨1, [0]⟩] = .ok s ∧
      0 ∈ ones s.operatorBitmask ∧ 1 ∈ ones s.operatorBitmask ∧
      (s.operatorSlots 0).addr = (s.operatorSlots 1).addr) ∧
    (∃ s, initializeCluster (transaction 99 10) ⟨100, 1, [0]⟩ [⟨0, [0]⟩] = .ok s ∧
      0 ∈ ones s.operatorBitmask ∧ (s.operatorSlots 0).addr = 0) ∧
    ∃ s, Run (Calls anyCall) sixOperators s ∧ isOperator s 0 = true ∧
      ¬ ∃ i ∈ ones s.operatorBitmask, (s.operatorSlots i).addr = 0 := by
  refine ⟨?_, ?_, withoutFirst, run_withoutFirst, by decide +kernel, by decide +kernel⟩
  · exact ⟨result {} _, eq_ok_result (by decide +kernel) _, by decide +kernel, by decide +kernel,
      by decide +kernel⟩
  · exact ⟨result {} _, eq_ok_result (by decide +kernel) _, by decide +kernel, by decide +kernel⟩

/-! ## Members -/

/-- Free slots hold no address and no data. -/
def Cleared (s : State) : Prop := ∀ i, i ∉ ones s.operatorBitmask → s.operatorSlots i = {}

/-- A call that does not update or remove the zero address. -/
def NamesOperator (_ : State) : Call → Prop
  | .updateNodeOperatorData operatorAddress _ => operatorAddress ≠ 0
  | .removeNodeOperator operatorAddr => operatorAddr ≠ 0
  | _ => True

section Members

variable {s s' : State} {msg : Msg} {call : Call} {event : Event}

theorem cleared_transition (hr : Registry s) (hs : Cleared s) (hcall : NamesOperator s call)
    (h : Transition msg s call s' event) : Cleared s' := by
  cases h with
  | @addNodeOperator operator _ _ _ _ _ _ _ =>
    intro i hi
    rw [State.setOperator, ones_set, Finset.mem_insert, not_or] at hi
    exact (Function.update_of_ne hi.1 ..).trans (hs i hi.2)
  | @updateNodeOperatorData a newData slotIdx _ _ hidx haddr _ =>
    subst hidx
    intro i hi
    have hmem := hr.mem_of_isOperator hcall haddr
    have hne : i ≠ s.operatorSlotIndexes a := by
      rintro rfl
      exact hi hmem
    exact (Function.update_of_ne hne ..).trans (hs i hi)
  | @removeNodeOperator a slotIdx _ _ _ _ _ _ _ =>
    intro i hi
    by_cases heq : i = slotIdx
    · rw [heq]
      exact Function.update_self ..
    · rw [ones_unset, Finset.mem_erase, and_iff_right heq] at hi
      exact (Function.update_of_ne heq ..).trans (hs i hi)
  | _ => exact hs

theorem cleared_calls : Invariant (Calls NamesOperator) fun s => Registry s ∧ Cleared s := by
  rintro s s' ⟨hr, hs⟩ ⟨msg, call, event, hcall, h⟩
  rw [exec_iff] at h
  exact ⟨registry_transition hr h, cleared_transition hr hs hcall h⟩

/-- A registered address that the contract accepts as an operator is one, unless it is zero. -/
theorem Registry.mem_iff_ne_zero (hs : Registry s) {a : Address} (hop : s.IsOperator a) :
    (∃ i ∈ ones s.operatorBitmask, (s.operatorSlots i).addr = a) ↔ a ≠ 0 := by
  constructor
  · rintro ⟨i, hi, rfl⟩
    exact (hs.occupied i).mp hi
  · intro hne
    exact (hs.isOperator_iff_mem (.inl hne)).mp hop

theorem isOperator_of_updateNodeOperatorData {a : Address} {newData : Bytes}
    (h : Transition msg s (.updateNodeOperatorData a newData) s' event) : s.IsOperator a := by
  cases h with | updateNodeOperatorData _ _ hidx haddr _
  rw [State.IsOperator, hidx]
  exact haddr

theorem isOperator_of_removeNodeOperator {a : Address}
    (h : Transition msg s (.removeNodeOperator a) s' event) :
    s.IsOperator a ∧ s'.operatorBitmask = unset s.operatorBitmask (s.operatorSlotIndexes a) := by
  cases h with | removeNodeOperator _ hidx haddr _ _ _ _
  subst hidx
  exact ⟨haddr, rfl⟩

end Members

/-- After an `initialize` with distinct non-zero operators and calls that neither update nor remove the
zero address: free slots are empty, and what is updated or removed is a registered operator exactly
when it is not the zero address. A removal of another address takes one operator away. -/
theorem members_iff {env : Env} {settings : Settings} {operators : List NodeOperator} {s₀ s : State}
    (hnonzero : ∀ op ∈ operators, op.addr ≠ 0) (hdistinct : (operators.map NodeOperator.addr).Nodup)
    (hinit : initializeCluster env settings operators = .ok s₀)
    (hrun : Run (Calls NamesOperator) s₀ s) :
    (∀ i, i ∉ ones s.operatorBitmask → (s.operatorSlots i).addr = 0 ∧ (s.operatorSlots i).data = []) ∧
    (∀ msg a newData s' event,
      exec msg (.updateNodeOperatorData a newData) s = .ok (s', event) →
        ((∃ i ∈ ones s.operatorBitmask, (s.operatorSlots i).addr = a) ↔ a ≠ 0)) ∧
    ∀ msg a s' event, exec msg (.removeNodeOperator a) s = .ok (s', event) →
      ((∃ i ∈ ones s.operatorBitmask, (s.operatorSlots i).addr = a) ∧
        countSet s'.operatorBitmask + 1 = countSet s.operatorBitmask ↔ a ≠ 0) := by
  have hcleared : Cleared s₀ := by
    intro i hi
    rw [mem_ones_initialized hinit, Nat.not_lt] at hi
    rw [operatorSlots_initialized hinit, List.getElem?_eq_none hi]
    rfl
  obtain ⟨hr, hs⟩ :=
    cleared_calls.run hrun ⟨registry_initialized hnonzero hdistinct hinit, hcleared⟩
  refine ⟨fun i hi => by rw [hs i hi]; exact ⟨rfl, rfl⟩, ?_, ?_⟩
  · intro msg a newData s' event h
    exact hr.mem_iff_ne_zero (isOperator_of_updateNodeOperatorData (exec_iff.mp h))
  · intro msg a s' event h
    obtain ⟨hop, hmask⟩ := isOperator_of_removeNodeOperator (exec_iff.mp h)
    rw [hr.mem_iff_ne_zero hop, and_iff_left_iff_imp]
    intro hne
    rw [hmask, countSet, ones_unset]
    exact Finset.card_erase_add_one (hr.mem_of_isOperator hne hop)

/-- The first of the six operators is updated. -/
theorem members_iff_updated :
    exec (transaction 0 11) (.updateNodeOperatorData 1 [1]) sixOperators =
      .ok (after (transaction 0 11) (.updateNodeOperatorData 1 [1]) sixOperators) ∧
    ∃ i ∈ ones sixOperators.operatorBitmask, (sixOperators.operatorSlots i).addr = 1 := by
  have hupdate := exec_after (transaction 0 11) (.updateNodeOperatorData 1 [1]) sixOperators
    (by decide +kernel)
  exact ⟨hupdate, ((members_iff (by decide) (by decide) initialize_sixOperators .refl).2.1 _ _ _ _ _
    hupdate).mpr (by decide)⟩

/-- With slot 0 free, the owner updates the zero address, which leaves data behind, and removes it,
which removes nobody. -/
theorem not_members :
    ∃ s updated relaxed removed, Run (Calls anyCall) sixOperators s ∧
      (¬ ∃ i ∈ ones s.operatorBitmask, (s.operatorSlots i).addr = 0) ∧
      exec (transaction 99 14) (.updateNodeOperatorData 0 [1]) s = .ok updated ∧
      0 ∉ ones updated.1.operatorBitmask ∧ (updated.1.operatorSlots 0).data = [1] ∧
      exec (transaction 99 14) (.updateSettings ⟨100, 4, [0]⟩) s = .ok relaxed ∧
      exec (transaction 99 15) (.removeNodeOperator 0) relaxed.1 = .ok removed ∧
      countSet removed.1.operatorBitmask = countSet s.operatorBitmask := by
  let relaxed := after (transaction 99 14) (.updateSettings ⟨100, 4, [0]⟩) withoutFirst
  exact ⟨withoutFirst, after (transaction 99 14) (.updateNodeOperatorData 0 [1]) withoutFirst,
    relaxed, after (transaction 99 15) (.removeNodeOperator 0) relaxed.1, run_withoutFirst,
    by decide +kernel, exec_after _ _ _ (by decide +kernel), by decide +kernel, by decide +kernel,
    exec_after _ _ _ (by decide +kernel), exec_after _ _ _ (by decide +kernel), by decide +kernel⟩

end Contract
end Wcn
