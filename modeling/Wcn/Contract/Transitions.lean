import Wcn.Lib.Outcomes
import Wcn.Contract.Cluster

/-!
# Wcn.Contract.Transitions

What a successful call does, as a relation with one constructor for each way to succeed: the guards
that were passed, the new state and the event.

* `exec_iff` — a call succeeds with exactly these results.
-/

namespace Wcn
namespace Contract

open Lib Bitmask

def State.ValidData (s : State) (data : Bytes) : Prop :=
  data ≠ [] ∧ data.length ≤ s.settings.maxOperatorDataBytes

/-- The sender is in the slot its address points to. -/
abbrev State.IsOperator (s : State) (a : Address) : Prop :=
  (s.operatorSlots (s.operatorSlotIndexes a)).addr = a

inductive Transition (env : Msg) (s : State) : Call → State → Event → Prop where
  | startMigration {newKeyspace : Keyspace} :
      env.sender = s.owner → s.maintenanceSlot = 0 → s.migration.pullingOperatorBitmask = 0 →
      s.settings.minOperators ≤ countSet newKeyspace.operatorBitmask →
      ones newKeyspace.operatorBitmask ⊆ ones s.operatorBitmask →
      s.keyspaces s.keyspaceIdx ≠ newKeyspace →
      s.migration.id + 1 < 2 ^ 64 → s.keyspaceVersion + 1 < 2 ^ 64 → s.version + 1 < 2 ^ 128 →
      Transition env s (.startMigration newKeyspace)
        { s with
          migration := { s.migration with
            id := s.migration.id + 1
            startedAt := env.timestamp
            pullingOperatorBitmask := newKeyspace.operatorBitmask }
          keyspaceVersion := s.keyspaceVersion + 1
          keyspaces := Function.update s.keyspaces (Fin.ofNat 2 (s.keyspaceVersion + 1)) newKeyspace
          version := s.version + 1 }
        (.migrationStarted (s.migration.id + 1) newKeyspace (s.keyspaceVersion + 1) (s.version + 1))
  | completePull {slotIdx : Idx} :
      s.operatorSlotIndexes env.sender = slotIdx → s.IsOperator env.sender →
      slotIdx ∈ ones s.migration.pullingOperatorBitmask →
      unset s.migration.pullingOperatorBitmask slotIdx ≠ 0 → s.version + 1 < 2 ^ 128 →
      Transition env s (.completeMigration s.migration.id)
        { s with
          migration := { s.migration with
            pullingOperatorBitmask := unset s.migration.pullingOperatorBitmask slotIdx }
          version := s.version + 1 }
        (.migrationDataPullCompleted s.migration.id env.sender (s.version + 1))
  | completeMigration {slotIdx : Idx} :
      s.operatorSlotIndexes env.sender = slotIdx → s.IsOperator env.sender →
      slotIdx ∈ ones s.migration.pullingOperatorBitmask →
      unset s.migration.pullingOperatorBitmask slotIdx = 0 → s.version + 1 < 2 ^ 128 →
      Transition env s (.completeMigration s.migration.id)
        { s with
          migration := { s.migration with pullingOperatorBitmask := 0 }
          version := s.version + 1 }
        (.migrationCompleted s.migration.id env.sender (s.version + 1))
  | abortMigration :
      env.sender = s.owner → s.migration.pullingOperatorBitmask ≠ 0 → s.keyspaceVersion ≠ 0 →
      s.version + 1 < 2 ^ 128 →
      Transition env s (.abortMigration s.migration.id)
        { s with
          migration := { s.migration with abortedAt := env.timestamp, pullingOperatorBitmask := 0 }
          keyspaceVersion := s.keyspaceVersion - 1
          version := s.version + 1 }
        (.migrationAborted s.migration.id (s.version + 1))
  | addNodeOperator {operator : NodeOperator} :
      env.sender = s.owner → s.operatorBitmask ≠ BitVec.allOnes 256 → operator.addr ≠ 0 →
      s.operatorSlotIndexes operator.addr = 0 → (s.operatorSlots 0).addr ≠ operator.addr →
      s.ValidData operator.data → s.version + 1 < 2 ^ 128 →
      Transition env s (.addNodeOperator operator)
        { s.setOperator (findFirstUnset s.operatorBitmask) operator with version := s.version + 1 }
        (.nodeOperatorAdded operator.addr (findFirstUnset s.operatorBitmask) operator.data
          (s.version + 1))
  | updateNodeOperatorData {operatorAddress : Address} {newData : Bytes} {slotIdx : Idx} :
      env.sender = operatorAddress ∨ env.sender = s.owner → s.ValidData newData →
      s.operatorSlotIndexes operatorAddress = slotIdx →
      (s.operatorSlots slotIdx).addr = operatorAddress → s.version + 1 < 2 ^ 128 →
      Transition env s (.updateNodeOperatorData operatorAddress newData)
        { s with
          operatorSlots := Function.update s.operatorSlots slotIdx ⟨operatorAddress, newData⟩
          version := s.version + 1 }
        (.nodeOperatorUpdated operatorAddress slotIdx newData (s.version + 1))
  | removeNodeOperator {operatorAddr : Address} {slotIdx : Idx} :
      env.sender = s.owner → s.operatorSlotIndexes operatorAddr = slotIdx →
      (s.operatorSlots slotIdx).addr = operatorAddr →
      s.settings.minOperators < countSet s.operatorBitmask →
      (s.migration.pullingOperatorBitmask ≠ 0 →
        ∀ i, slotIdx ∉ ones (s.keyspaces i).operatorBitmask) →
      (s.migration.pullingOperatorBitmask = 0 →
        slotIdx ∉ ones (s.keyspaces s.keyspaceIdx).operatorBitmask) →
      s.version + 1 < 2 ^ 128 →
      Transition env s (.removeNodeOperator operatorAddr)
        { s with
          operatorSlots := Function.update s.operatorSlots slotIdx {}
          operatorSlotIndexes := Function.update s.operatorSlotIndexes operatorAddr 0
          operatorBitmask := unset s.operatorBitmask slotIdx
          version := s.version + 1 }
        (.nodeOperatorRemoved operatorAddr slotIdx (s.version + 1))
  | startMaintenance :
      s.maintenanceSlot = 0 → env.sender = s.owner ∨ s.IsOperator env.sender →
      s.version + 1 < 2 ^ 128 →
      Transition env s (.setMaintenance true)
        { s with maintenanceSlot := env.sender, version := s.version + 1 }
        (.maintenanceToggled env.sender true (s.version + 1))
  | finishMaintenance :
      s.maintenanceSlot = env.sender ∨ env.sender = s.owner →
      env.sender = s.owner ∨ s.IsOperator env.sender → s.version + 1 < 2 ^ 128 →
      Transition env s (.setMaintenance false)
        { s with maintenanceSlot := 0, version := s.version + 1 }
        (.maintenanceToggled env.sender false (s.version + 1))
  | updateSettings {newSettings : Settings} :
      env.sender = s.owner → newSettings.minOperators ≤ countSet s.operatorBitmask →
      s.version + 1 < 2 ^ 128 →
      Transition env s (.updateSettings newSettings)
        { s with settings := newSettings, version := s.version + 1 }
        (.settingsUpdated newSettings env.sender (s.version + 1))
  | transferOwnership {newOwner : Address} :
      env.sender = s.owner →
      Transition env s (.transferOwnership newOwner) { s with pendingOwner := newOwner }
        (.ownershipTransferStarted s.owner newOwner)
  | acceptOwnership :
      s.pendingOwner = env.sender →
      Transition env s .acceptOwnership { s with owner := env.sender, pendingOwner := 0 }
        (.ownershipTransferred s.owner env.sender)
  | renounceOwnership :
      env.sender = s.owner →
      Transition env s .renounceOwnership { s with owner := 0, pendingOwner := 0 }
        (.ownershipTransferred s.owner 0)

section Exec

variable {env : Msg} {s s' : State} {event : Event}

theorem increment_eq_ok {width n m : Nat} :
    increment width n = .ok m ↔ n + 1 < 2 ^ width ∧ m = n + 1 := by
  rw [increment]
  split <;> simp_all [eq_comm]

theorem State.emitNext_eq_ok {f : Nat → Event} :
    s.emitNext f = .ok (s', event) ↔
      s.version + 1 < 2 ^ 128 ∧ s' = { s with version := s.version + 1 } ∧
        event = f (s.version + 1) := by
  rw [State.emitNext, bind_eq_ok]
  simp only [increment_eq_ok, Except.ok.injEq, Prod.mk.injEq]
  constructor
  · rintro ⟨_, ⟨h, rfl⟩, rfl, rfl⟩
    exact ⟨h, rfl, rfl⟩
  · rintro ⟨h, rfl, rfl⟩
    exact ⟨_, ⟨h, rfl⟩, rfl, rfl⟩

theorem State.validateOperatorData_eq_ok {data : Bytes} :
    s.validateOperatorData data = .ok () ↔ s.ValidData data := by
  rw [State.validateOperatorData, State.ValidData]
  split
  · next h =>
    rw [List.length_eq_zero_iff] at h
    refine ⟨(nomatch ·), fun hv => ?_⟩
    rcases h with h | h
    · exact absurd h hv.1
    · omega
  · next h =>
    rw [not_or, List.length_eq_zero_iff, Nat.not_lt] at h
    exact ⟨fun _ => h, fun _ => rfl⟩

theorem startMigration_iff {newKeyspace : Keyspace} :
    startMigration env newKeyspace s = .ok (s', event) ↔
      Transition env s (.startMigration newKeyspace) s' event := by
  constructor
  · intro h
    unfold startMigration at h
    split_ifs at h with h₁ h₂ h₃ h₄ h₅ h₆
    simp only [bind_eq_ok, increment_eq_ok, State.emitNext_eq_ok] at h
    obtain ⟨_, ⟨hid, rfl⟩, _, ⟨hkv, rfl⟩, hv, rfl, rfl⟩ := h
    exact .startMigration (not_not.mp h₁) (not_not.mp h₂) (not_not.mp h₃) (Nat.not_lt.mp h₄)
      (isSubsetOf_iff.mp h₅) h₆ hid hkv hv
  · intro h
    obtain ⟨h₁, h₂, h₃, h₄, h₅, h₆, hid, hkv, hv⟩ := h
    unfold startMigration
    rw [if_neg (not_not.mpr h₁), if_neg (not_not.mpr h₂), if_neg (not_not.mpr h₃),
      if_neg (Nat.not_lt.mpr h₄), if_neg (not_not.mpr (isSubsetOf_iff.mpr h₅)), if_neg h₆]
    simp only [bind_eq_ok, increment_eq_ok, State.emitNext_eq_ok]
    exact ⟨_, ⟨hid, rfl⟩, _, ⟨hkv, rfl⟩, hv, rfl, rfl⟩

theorem completeMigration_iff {id : Nat} :
    completeMigration env id s = .ok (s', event) ↔
      Transition env s (.completeMigration id) s' event := by
  constructor
  · intro h
    unfold completeMigration at h
    simp only at h
    split_ifs at h with h₁ h₂ h₃ h₄ h₅
    all_goals
      rw [State.emitNext_eq_ok] at h
      obtain ⟨hv, rfl, rfl⟩ := h
      rw [isUnset_iff, not_not] at h₄
      obtain rfl := not_not.mp h₂
    · rw [h₅]
      exact .completeMigration rfl (not_not.mp h₃) h₄ h₅ hv
    · exact .completePull rfl (not_not.mp h₃) h₄ h₅ hv
  · intro h
    have hne : ∀ {i : Idx}, i ∈ ones s.migration.pullingOperatorBitmask →
        s.migration.pullingOperatorBitmask ≠ 0 := fun hi h0 => by
      rw [h0, ones_zero] at hi
      exact absurd hi (Finset.notMem_empty _)
    unfold completeMigration
    cases h with
    | completePull hidx hop hmem hrest hv =>
      subst hidx
      rw [if_neg (hne hmem), if_neg (not_not.mpr rfl), if_neg (not_not.mpr hop),
        if_neg (by rw [isUnset_iff, not_not]; exact hmem)]
      dsimp only
      rw [if_neg hrest, State.emitNext_eq_ok]
      exact ⟨hv, rfl, rfl⟩
    | completeMigration hidx hop hmem hrest hv =>
      subst hidx
      rw [if_neg (hne hmem), if_neg (not_not.mpr rfl), if_neg (not_not.mpr hop),
        if_neg (by rw [isUnset_iff, not_not]; exact hmem)]
      dsimp only
      rw [if_pos hrest, State.emitNext_eq_ok, hrest]
      exact ⟨hv, rfl, rfl⟩

theorem abortMigration_iff {id : Nat} :
    abortMigration env id s = .ok (s', event) ↔ Transition env s (.abortMigration id) s' event := by
  constructor
  · intro h
    unfold abortMigration at h
    split_ifs at h with h₁ h₂ h₃ h₄
    rw [State.emitNext_eq_ok] at h
    obtain ⟨hv, rfl, rfl⟩ := h
    obtain rfl := not_not.mp h₃
    exact .abortMigration (not_not.mp h₁) h₂ h₄ hv
  · intro h
    cases h with | abortMigration h₁ h₂ h₃ hv
    unfold abortMigration
    rw [if_neg (not_not.mpr h₁), if_neg h₂, if_neg (not_not.mpr rfl), if_neg h₃,
      State.emitNext_eq_ok]
    exact ⟨hv, rfl, rfl⟩

theorem addNodeOperator_iff {operator : NodeOperator} :
    addNodeOperator env operator s = .ok (s', event) ↔
      Transition env s (.addNodeOperator operator) s' event := by
  constructor
  · intro h
    unfold addNodeOperator at h
    split_ifs at h with h₁ h₂ h₃ h₄
    simp only [bind_eq_ok, State.emitNext_eq_ok] at h
    obtain ⟨_, hdata, hv, rfl, rfl⟩ := h
    rw [not_or, not_not] at h₄
    exact .addNodeOperator (not_not.mp h₁) h₂ h₃ h₄.1 h₄.2 (State.validateOperatorData_eq_ok.mp hdata) hv
  · intro h
    cases h with | addNodeOperator h₁ h₂ h₃ h₄ h₅ hdata hv
    unfold addNodeOperator
    rw [if_neg (not_not.mpr h₁), if_neg h₂, if_neg h₃, if_neg (by rw [not_or, not_not]; exact ⟨h₄, h₅⟩)]
    simp only [bind_eq_ok, State.emitNext_eq_ok]
    exact ⟨(), State.validateOperatorData_eq_ok.mpr hdata, hv, rfl, rfl⟩

theorem updateNodeOperatorData_iff {operatorAddress : Address} {newData : Bytes} :
    updateNodeOperatorData env operatorAddress newData s = .ok (s', event) ↔
      Transition env s (.updateNodeOperatorData operatorAddress newData) s' event := by
  constructor
  · intro h
    unfold updateNodeOperatorData at h
    split_ifs at h with h₁
    simp only [bind_eq_ok] at h
    obtain ⟨_, hdata, h⟩ := h
    split_ifs at h with h₂
    rw [State.emitNext_eq_ok] at h
    obtain ⟨hv, rfl, rfl⟩ := h
    rw [not_and_or, not_not, not_not] at h₁
    have haddr := not_not.mp h₂
    rw [haddr]
    exact .updateNodeOperatorData h₁ (State.validateOperatorData_eq_ok.mp hdata) rfl haddr hv
  · intro h
    cases h with | updateNodeOperatorData h₁ hdata hidx haddr hv
    subst hidx
    unfold updateNodeOperatorData
    rw [if_neg (by rw [not_and_or, not_not, not_not]; exact h₁)]
    simp only [bind_eq_ok]
    refine ⟨(), State.validateOperatorData_eq_ok.mpr hdata, ?_⟩
    rw [if_neg (not_not.mpr haddr), State.emitNext_eq_ok]
    exact ⟨hv, by rw [haddr], rfl⟩

theorem removeNodeOperator_iff {operatorAddr : Address} :
    removeNodeOperator env operatorAddr s = .ok (s', event) ↔
      Transition env s (.removeNodeOperator operatorAddr) s' event := by
  constructor
  · intro h
    unfold removeNodeOperator at h
    simp only [State.isSlotInKeyspace, isSet_iff] at h
    split_ifs at h with h₁ h₂ h₃ h₄ h₅
    rw [State.emitNext_eq_ok] at h
    obtain ⟨hv, rfl, rfl⟩ := h
    refine .removeNodeOperator (not_not.mp h₁) rfl (not_not.mp h₂) (Nat.not_le.mp h₃) ?_ ?_ hv
    · intro hpull i hi
      refine h₄ ⟨hpull, ?_⟩
      match i, hi with
      | 0, hi => exact .inl hi
      | 1, hi => exact .inr hi
    · intro hpull hi
      exact h₅ ⟨hpull, hi⟩
  · intro h
    cases h with | removeNodeOperator h₁ hidx h₂ h₃ h₄ h₅ hv
    subst hidx
    unfold removeNodeOperator
    simp only [State.isSlotInKeyspace, isSet_iff]
    rw [if_neg (not_not.mpr h₁), if_neg (not_not.mpr h₂), if_neg (Nat.not_le.mpr h₃),
      if_neg (fun h => h.2.elim (h₄ h.1 0) (h₄ h.1 1)), if_neg (fun h => h₅ h.1 h.2),
      State.emitNext_eq_ok]
    exact ⟨hv, rfl, rfl⟩

theorem setMaintenance_iff {active : Bool} :
    setMaintenance env active s = .ok (s', event) ↔
      Transition env s (.setMaintenance active) s' event := by
  constructor
  · intro h
    unfold setMaintenance at h
    rw [bind_eq_ok] at h
    obtain ⟨slot, hslot, h⟩ := h
    dsimp only at h
    split_ifs at h with h₁
    rw [State.emitNext_eq_ok] at h
    obtain ⟨hv, rfl, rfl⟩ := h
    rw [not_and_or, not_not, not_not] at h₁
    unfold nextMaintenanceSlot at hslot
    cases active with
    | true =>
      rw [if_pos rfl] at hslot
      split_ifs at hslot with h₂
      cases hslot
      exact .startMaintenance (not_not.mp h₂) h₁ hv
    | false =>
      rw [if_neg (by decide)] at hslot
      split_ifs at hslot with h₂
      cases hslot
      rw [not_and_or, not_not, not_not] at h₂
      exact .finishMaintenance h₂ h₁ hv
  · intro h
    unfold setMaintenance
    rw [bind_eq_ok]
    cases h with
    | startMaintenance h₂ h₁ hv =>
      refine ⟨env.sender, by rw [nextMaintenanceSlot, if_pos rfl, if_neg (not_not.mpr h₂)], ?_⟩
      rw [if_neg (by rw [not_and_or, not_not, not_not]; exact h₁), State.emitNext_eq_ok]
      exact ⟨hv, rfl, rfl⟩
    | finishMaintenance h₂ h₁ hv =>
      refine ⟨0, ?_, ?_⟩
      · rw [nextMaintenanceSlot, if_neg (by decide),
          if_neg (by rw [not_and_or, not_not, not_not]; exact h₂)]
      · rw [if_neg (by rw [not_and_or, not_not, not_not]; exact h₁), State.emitNext_eq_ok]
        exact ⟨hv, rfl, rfl⟩

theorem updateSettings_iff {newSettings : Settings} :
    updateSettings env newSettings s = .ok (s', event) ↔
      Transition env s (.updateSettings newSettings) s' event := by
  constructor
  · intro h
    unfold updateSettings at h
    split_ifs at h with h₁ h₂
    rw [State.emitNext_eq_ok] at h
    obtain ⟨hv, rfl, rfl⟩ := h
    exact .updateSettings (not_not.mp h₁) (Nat.not_lt.mp h₂) hv
  · intro h
    cases h with | updateSettings h₁ h₂ hv
    unfold updateSettings
    rw [if_neg (not_not.mpr h₁), if_neg (Nat.not_lt.mpr h₂), State.emitNext_eq_ok]
    exact ⟨hv, rfl, rfl⟩

theorem transferOwnership_iff {newOwner : Address} :
    transferOwnership env newOwner s = .ok (s', event) ↔
      Transition env s (.transferOwnership newOwner) s' event := by
  constructor
  · intro h
    unfold transferOwnership at h
    split_ifs at h with h₁
    cases h
    exact .transferOwnership (not_not.mp h₁)
  · intro h
    cases h with | transferOwnership h₁
    unfold transferOwnership
    rw [if_neg (not_not.mpr h₁)]

theorem acceptOwnership_iff :
    acceptOwnership env s = .ok (s', event) ↔ Transition env s .acceptOwnership s' event := by
  constructor
  · intro h
    unfold acceptOwnership at h
    split_ifs at h with h₁
    cases h
    exact .acceptOwnership (not_not.mp h₁)
  · intro h
    cases h with | acceptOwnership h₁
    unfold acceptOwnership
    rw [if_neg (not_not.mpr h₁)]
    rfl

theorem renounceOwnership_iff :
    renounceOwnership env s = .ok (s', event) ↔ Transition env s .renounceOwnership s' event := by
  constructor
  · intro h
    unfold renounceOwnership at h
    split_ifs at h with h₁
    cases h
    exact .renounceOwnership (not_not.mp h₁)
  · intro h
    cases h with | renounceOwnership h₁
    unfold renounceOwnership
    rw [if_neg (not_not.mpr h₁)]
    rfl

/-- A call succeeds in exactly the ways `Transition` lists. -/
theorem exec_iff {call : Call} :
    exec env call s = .ok (s', event) ↔ Transition env s call s' event := by
  cases call with
  | startMigration newKeyspace => exact startMigration_iff
  | completeMigration id => exact completeMigration_iff
  | abortMigration id => exact abortMigration_iff
  | addNodeOperator operator => exact addNodeOperator_iff
  | updateNodeOperatorData operatorAddress newData => exact updateNodeOperatorData_iff
  | removeNodeOperator operatorAddr => exact removeNodeOperator_iff
  | setMaintenance active => exact setMaintenance_iff
  | updateSettings newSettings => exact updateSettings_iff
  | transferOwnership newOwner => exact transferOwnership_iff
  | acceptOwnership => exact acceptOwnership_iff
  | renounceOwnership => exact renounceOwnership_iff

end Exec

end Contract
end Wcn
